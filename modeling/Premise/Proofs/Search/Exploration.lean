import Premise.Proofs.Search.Frontier

/-!
Searches from beginning to end. Main statements: `search_ends`, all the ways in which a search can
end, and `search_total`, that it ends where nesting has no limit.
-/
namespace Premise.Derivation

variable {s t : Derivation} {target : String} {limits : Limits} {done waiting : List Node}
  {node : Node} {seen : Std.HashSet String} {cut : Bool} {budget taken : Nat} {r : SearchResult}

/-! ### The loop -/

/-- The ways in which an exploration ends, with the frontier that is left behind. -/
inductive Ends (s : Derivation) (target : String) (limits : Limits) : SearchResult → Prop where
  | emptied {done : List Node} {seen : Std.HashSet String} {cut : Bool} (iterations : Nat) :
      Frontier s target limits done [] seen cut → Ends s target limits
        { halt := if cut then .depthLimit else .exhausted, iterations := iterations }
  | iterationLimit (iterations : Nat) : Ends s target limits
      { halt := .iterationLimit limits.maxIterations, iterations := iterations }
  | queueLimit (waiting iterations : Nat) : Ends s target limits
      { halt := .queueLimit waiting, iterations := iterations }
  | proved {done waiting : List Node} {node : Node} {seen : Std.HashSet String} {cut : Bool}
      {child : Derivation} (iterations : Nat) :
      Frontier s target limits done (node :: waiting) seen cut →
      (node.depth : Int) < limits.maxDepth → child ∈ node.state.expand limits.maxSteps →
      child.proves? target = .ok true → Ends s target limits
        { halt := .proved
          depth := node.depth + 1
          path := node.path ++ ["final_step"]
          iterations := iterations
          state := some child }

theorem explore_nil : explore limits target budget taken [] seen cut =
    .ok { halt := if cut then .depthLimit else .exhausted, iterations := taken } := by
  cases budget <;> rfl

/-- A node that waits is never found to prove the target: it was looked at when it was added. -/
theorem explore_cons (unproved : node.state.proves? target = .ok false) :
    explore limits target (budget + 1) taken (node :: waiting) seen cut =
      if limits.maxQueue < (waiting.length + 1 : Nat) then
        .ok { halt := .queueLimit (waiting.length + 1), iterations := taken + 1 }
      else if limits.maxDepth ≤ node.depth then
        explore limits target budget (taken + 1) waiting seen true
      else (do
        match ← round target node (node.state.expand limits.maxSteps) [] seen with
        | .found child =>
          return {
            halt := .proved
            depth := node.depth + 1
            path := node.path ++ ["final_step"]
            iterations := taken + 1
            state := some child }
        | .added nodes seen =>
          explore limits target budget (taken + 1) (waiting ++ nodes) seen cut) := by
  rw [explore, unproved]
  rfl

/-- All that can happen where a node is taken up. -/
theorem explore_cons_ok (unproved : node.state.proves? target = .ok false)
    (h : explore limits target (budget + 1) taken (node :: waiting) seen cut = .ok r) :
    (limits.maxQueue < (waiting.length + 1 : Nat) ∧
      r = { halt := .queueLimit (waiting.length + 1), iterations := taken + 1 }) ∨
    (limits.maxDepth ≤ node.depth ∧
      explore limits target budget (taken + 1) waiting seen true = .ok r) ∨
    ((node.depth : Int) < limits.maxDepth ∧ ∃ child ∈ node.state.expand limits.maxSteps,
      child.proves? target = .ok true ∧ r = {
        halt := .proved
        depth := node.depth + 1
        path := node.path ++ ["final_step"]
        iterations := taken + 1
        state := some child }) ∨
    ((node.depth : Int) < limits.maxDepth ∧ ∃ fresh seen',
      round target node (node.state.expand limits.maxSteps) [] seen = .ok (.added fresh seen') ∧
      explore limits target budget (taken + 1) (waiting ++ fresh) seen' cut = .ok r) := by
  rw [explore_cons unproved] at h
  split at h
  · rename_i full
    cases h
    exact Or.inl ⟨full, rfl⟩
  · split at h
    · rename_i deep
      exact Or.inr (Or.inl ⟨deep, h⟩)
    · rename_i shallow
      obtain ⟨outcome, looked, h⟩ := bind_eq_ok.mp h
      cases outcome with
      | found child =>
        cases h
        obtain ⟨member, proved⟩ := round_found looked
        exact Or.inr (Or.inr (Or.inl ⟨by omega, child, member, proved, rfl⟩))
      | added fresh seen' =>
        exact Or.inr (Or.inr (Or.inr ⟨by omega, fresh, seen', looked, h⟩))

theorem explore_ends (frontier : Frontier s target limits done waiting seen cut)
    (h : explore limits target budget taken waiting seen cut = .ok r) :
    Ends s target limits r ∧ r.iterations ≤ taken + budget + 1 := by
  induction budget generalizing taken done waiting seen cut with
  | zero =>
    cases waiting with
    | nil =>
      rw [explore_nil] at h
      cases h
      exact ⟨.emptied taken frontier, by dsimp only; omega⟩
    | cons node waiting =>
      cases h
      exact ⟨.iterationLimit _, Nat.le_refl _⟩
  | succ budget ih =>
    cases waiting with
    | nil =>
      rw [explore_nil] at h
      cases h
      exact ⟨.emptied taken frontier, by dsimp only; omega⟩
    | cons node waiting =>
      rcases explore_cons_ok (frontier.arrived node (by simp)).unproved h with ⟨-, rfl⟩ |
        ⟨deep, h⟩ | ⟨shallow, child, member, proved, rfl⟩ | ⟨shallow, fresh, seen', looked, h⟩
      · exact ⟨.queueLimit _ _, by simp⟩
      · obtain ⟨ends, bound⟩ := ih (frontier.skip deep) h
        exact ⟨ends, by omega⟩
      · exact ⟨.proved _ frontier shallow member proved, by dsimp only; omega⟩
      · obtain ⟨ends, bound⟩ := ih (frontier.take shallow (added_of_round looked)) h
        exact ⟨ends, by omega⟩

/-! ### Searches -/

/-- A search ends before there is anything to explore, or the exploration decides. -/
theorem search_cases (h : s.search target limits = .ok r) :
    (s.proves? target = .ok true ∧ r = { halt := .alreadyProved, state := some s }) ∨
    (∃ names, s.proves? target = .ok false ∧ s.unresolved target = .ok names ∧ names ≠ [] ∧
      r = { halt := .missingFacts, missing := names }) ∨
    (s.proves? target = .ok false ∧ s.unresolved target = .ok [] ∧
      s.pursue target limits = .ok r) := by
  obtain ⟨first, settled, h⟩ := bind_eq_ok.mp h
  obtain ⟨b, proved, settled⟩ := bind_eq_ok.mp settled
  cases b with
  | true =>
    cases settled
    cases h
    exact Or.inl ⟨proved, rfl⟩
  | false =>
    obtain ⟨names, missing, settled⟩ := bind_eq_ok.mp settled
    cases names with
    | nil =>
      cases settled
      exact Or.inr (Or.inr ⟨proved, missing, h⟩)
    | cons name names =>
      cases settled
      cases h
      exact Or.inr (Or.inl ⟨_, proved, missing, by simp, rfl⟩)

theorem search_ends (h : s.search target limits = .ok r) :
    (s.proves? target = .ok true ∧ r = { halt := .alreadyProved, state := some s }) ∨
    (∃ names, s.proves? target = .ok false ∧ s.unresolved target = .ok names ∧ names ≠ [] ∧
      r = { halt := .missingFacts, missing := names }) ∨
    (s.proves? target = .ok false ∧ s.unresolved target = .ok [] ∧ Ends s target limits r ∧
      r.iterations ≤ limits.maxIterations.toNat + 1) := by
  rcases search_cases h with proved | missing | ⟨unproved, resolved, explored⟩
  · exact Or.inl proved
  · exact Or.inr (Or.inl missing)
  · obtain ⟨ends, bound⟩ := explore_ends (.start unproved) explored
    exact Or.inr (Or.inr ⟨unproved, resolved, ends, by omega⟩)

theorem search_proven (found : s.search target limits = .ok r) (some : r.state = some t) :
    Chain limits.maxSteps s r.depth t ∧ t.proves? target = .ok true ∧
      (r.depth : Int) ≤ max limits.maxDepth 0 ∧
      (s.proves? target = .ok true ∨ s.unresolved target = .ok []) := by
  rcases search_ends found with ⟨proved, rfl⟩ | ⟨names, -, -, -, rfl⟩ | ⟨-, resolved, ends, -⟩
  · cases some
    exact ⟨.start, proved, by dsimp only; omega, Or.inl proved⟩
  · cases some
  · cases ends with
    | emptied | iterationLimit | queueLimit => cases some
    | @proved done waiting node seen cut child _ frontier shallow member proves =>
      cases some
      exact ⟨(frontier.arrived node (by simp)).chain.next member, proves, by dsimp only; omega,
        Or.inr resolved⟩

/-! ### Without a limit on nesting -/

theorem explore_total (unlimited : s.limit = none) (readable : ∀ f ∈ s.formulas, Formula.Reads f)
    (reads : Formula.Reads target) (frontier : Frontier s target limits done waiting seen cut) :
    ∃ r, explore limits target budget taken waiting seen cut = .ok r := by
  induction budget generalizing taken done waiting seen cut with
  | zero =>
    cases waiting with
    | nil => exact ⟨_, explore_nil⟩
    | cons node waiting => exact ⟨_, rfl⟩
  | succ budget ih =>
    cases waiting with
    | nil => exact ⟨_, explore_nil⟩
    | cons node waiting =>
      have arrived := frontier.arrived node (by simp)
      rw [explore_cons arrived.unproved]
      split
      · exact ⟨_, rfl⟩
      · split
        · rename_i deep
          exact ih (frontier.skip deep)
        · rename_i shallow
          have decided : ∀ c ∈ node.state.expand limits.maxSteps, ∃ b, c.proves? target = .ok b := by
            intro c child
            obtain ⟨fs, -, grown, novel⟩ := (arrived.chain.next child).grown readable
            exact proves?_total (grown.limit.trans unlimited) reads (grown.reads novel readable)
          obtain ⟨outcome, looked⟩ := round_total decided
          rw [looked]
          cases outcome with
          | found child => exact ⟨_, rfl⟩
          | added nodes seen' =>
            exact ih (frontier.take (by omega) (added_of_round looked))

theorem search_total (unlimited : s.limit = none) (readable : ∀ f ∈ s.formulas, Formula.Reads f)
    (reads : Formula.Reads target) : ∃ r, s.search target limits = .ok r := by
  unfold search settled?
  obtain ⟨b, decided⟩ := proves?_total unlimited reads readable
  obtain ⟨names, missing⟩ := unresolved_total unlimited reads
  rw [decided, missing]
  cases b with
  | true => exact ⟨_, rfl⟩
  | false =>
    cases names with
    | nil => exact explore_total unlimited readable reads (.start decided)
    | cons name names => exact ⟨_, rfl⟩

end Premise.Derivation
