import Premise.Proofs.Search.Exploration

/-!
Completeness of bounded searches. A search that does not give up finds a proof exactly if some chain
within the depth limit ends in one, and what it finds is as short as can be.
-/
namespace Premise

/-- The search stopped with work left that its depth limit allowed. -/
def Halt.gaveUp : Halt → Bool
  | .iterationLimit _ | .queueLimit _ => true
  | _ => false

namespace Derivation

variable {s t : Derivation} {target : String} {limits : Limits} {r : SearchResult}

/-- A chain of `n` rounds ends in a proof of the target. -/
def ProvedAfter (s : Derivation) (target : String) (maxSteps : Int) (n : Nat) : Prop :=
  ∃ t, Chain maxSteps s n t ∧ t.proves? target = .ok true

theorem Frontier.late {done waiting : List Node} {node : Node} {seen : Std.HashSet String}
    {cut : Bool} {n : Nat} (frontier : Frontier s target limits done (node :: waiting) seen cut)
    (shallow : (node.depth : Int) < limits.maxDepth)
    (readable : ∀ f ∈ s.formulas, Formula.Reads f) (chain : Chain limits.maxSteps s n t)
    (proves : t.proves? target ≠ .ok false) : node.depth + 1 ≤ n := by
  rcases Nat.lt_or_ge node.depth n with late | early
  · exact late
  · have low : ∀ m ∈ node :: waiting, n ≤ m.depth := by
      refine List.forall_mem_cons.mpr ⟨early, fun m member => ?_⟩
      exact Nat.le_trans early (List.rel_of_pairwise_cons frontier.ordered member)
    exact absurd (frontier.unproved readable chain low (Or.inl (by omega))) proves

theorem Frontier.unreached {done : List Node} {seen : Std.HashSet String} {cut : Bool} {n : Nat}
    (frontier : Frontier s target limits done [] seen cut)
    (readable : ∀ f ∈ s.formulas, Formula.Reads f)
    (shallow : (n : Int) ≤ max limits.maxDepth 0 ∨ cut = false) :
    ¬ s.ProvedAfter target limits.maxSteps n := by
  rintro ⟨t, chain, proves⟩
  have unproved := frontier.unproved readable chain (by simp) shallow
  rw [unproved] at proves
  cases proves

/-- A proof is found exactly if there is one to find. -/
theorem Ends.proven_iff (ends : Ends s target limits r)
    (readable : ∀ f ∈ s.formulas, Formula.Reads f) (whole : r.halt.gaveUp = false) :
    r.proven = true ↔
      ∃ n : Nat, (n : Int) ≤ limits.maxDepth ∧ s.ProvedAfter target limits.maxSteps n := by
  cases ends with
  | emptied _ frontier =>
    constructor
    · rintro ⟨⟩
    · rintro ⟨n, shallow, proved⟩
      exact absurd proved (frontier.unreached readable (Or.inl (by omega)))
  | iterationLimit | queueLimit => cases whole
  | @proved done waiting node seen cut child _ frontier shallow member proves =>
    have chain := (frontier.arrived node (by simp)).chain.next member
    refine ⟨fun _ => ⟨node.depth + 1, ?_, child, chain, proves⟩, fun _ => rfl⟩
    omega

/-- No chain that is shorter than what was found ends in a state that might prove the target. -/
theorem Ends.depth_le {n : Nat} (ends : Ends s target limits r)
    (readable : ∀ f ∈ s.formulas, Formula.Reads f) (proven : r.proven = true)
    (chain : Chain limits.maxSteps s n t) (proves : t.proves? target ≠ .ok false) : r.depth ≤ n := by
  cases ends with
  | emptied | iterationLimit | queueLimit => cases proven
  | @proved done waiting node seen cut child _ frontier shallow member found =>
    exact frontier.late shallow readable chain proves

theorem Ends.shortest (ends : Ends s target limits r)
    (readable : ∀ f ∈ s.formulas, Formula.Reads f) (proven : r.proven = true) :
    s.ProvedAfter target limits.maxSteps r.depth ∧
      ∀ n, s.ProvedAfter target limits.maxSteps n → r.depth ≤ n := by
  constructor
  · cases ends with
    | emptied | iterationLimit | queueLimit => cases proven
    | @proved done waiting node seen cut child _ frontier shallow member proves =>
      exact ⟨child, (frontier.arrived node (by simp)).chain.next member, proves⟩
  · rintro n ⟨t, chain, proves⟩
    exact ends.depth_le readable proven chain (by simp [proves])

theorem Ends.none_of_exhausted (ends : Ends s target limits r)
    (readable : ∀ f ∈ s.formulas, Formula.Reads f) (exhausted : r.halt = .exhausted) (n : Nat) :
    ¬ s.ProvedAfter target limits.maxSteps n := by
  cases ends with
  | @emptied done seen cut _ frontier =>
    cases cut with
    | true => cases exhausted
    | false => exact frontier.unreached readable (Or.inr rfl)
  | iterationLimit | queueLimit | proved => cases exhausted

/-- Unless it gives up, a search succeeds exactly if some chain within the depth limit proves the
target. The depth it reports is that of a shortest chain, and if it has exhausted what there is then
no chain of any length proves the target. Without a limit on nesting there always is a result. -/
theorem search_finds_shortest_chain (s : Derivation) (target : String) (limits : Limits)
    (readable : ∀ f ∈ s.formulas, Formula.Reads f) (reads : Formula.Reads target)
    (unproved : s.proves? target = .ok false) (resolved : s.unresolved target = .ok []) :
    (s.limit = none → ∃ r, s.search target limits = .ok r) ∧
    ∀ r, s.search target limits = .ok r →
      (r.halt.gaveUp = false → (r.proven = true ↔
        ∃ n : Nat, (n : Int) ≤ limits.maxDepth ∧ s.ProvedAfter target limits.maxSteps n)) ∧
      (r.proven = true → s.ProvedAfter target limits.maxSteps r.depth ∧
        ∀ n, s.ProvedAfter target limits.maxSteps n → r.depth ≤ n) ∧
      (r.halt = .exhausted → ∀ n, ¬ s.ProvedAfter target limits.maxSteps n) := by
  refine ⟨fun unlimited => search_total unlimited readable reads, fun r found => ?_⟩
  rcases search_ends found with ⟨proved, -⟩ | ⟨names, -, missing, some, -⟩ | ⟨-, -, ends, -⟩
  · rw [unproved] at proved
    cases proved
  · rw [resolved] at missing
    cases missing
    exact absurd rfl some
  · exact ⟨ends.proven_iff readable, ends.shortest readable, ends.none_of_exhausted readable⟩

theorem shortest_chain_to_conjunction :
    (∃ r, (ofName "p").search "(p ∧ p)" {} = .ok r) ∧
    ∀ r, (ofName "p").search "(p ∧ p)" {} = .ok r → r.proven = true →
      ∀ n, (ofName "p").ProvedAfter "(p ∧ p)" 100 n → r.depth ≤ n := by
  have proper : (Formula.binary .and (.atom "p") (.atom "p")).Proper := by
    unfold Formula.Proper
    decide
  have shown : (Formula.binary .and (.atom "p") (.atom "p")).render = "(p ∧ p)" := by decide
  have different : "p" ≠ (Formula.binary .and (.atom "p") (.atom "p")).normalize.render := by decide
  have unproved := ofName_unproved (show isIdentifier "p" = true by decide) proper different
  have resolved := ofName_resolved proper (show ∀ leaf ∈ _, leaf = "p" by decide)
  have reads : Formula.Reads "(p ∧ p)" := ⟨_, shown ▸ Formula.parse_render proper⟩
  rw [shown] at unproved resolved
  obtain ⟨total, complete⟩ := search_finds_shortest_chain (ofName "p") "(p ∧ p)" {}
    (ofName_readable (by decide)) reads unproved resolved
  exact ⟨total rfl, fun r found proven => ((complete r found).2.1 proven).2⟩

end Derivation

end Premise
