import Premise.Proofs.Search.Signature
import Std.Data.HashSet.Lemmas

/-!
What the loop of a search keeps. Besides the nodes that wait, `Frontier` speaks of those that were
taken up, which the loop itself forgets. Main statement: `Frontier.unproved`, that no chain as short
as what waits has proved the target.
-/
namespace Premise.Derivation

variable {s t : Derivation} {target : String} {limits : Limits}

/-! ### One round -/

/-- The node of a successor. -/
def Node.next (node : Node) (child : Derivation) : Node where
  state := child
  depth := node.depth + 1
  path := node.path ++ ["step_" ++ toString (node.depth + 1)]

/-- What looking through the successors of a node adds, if none of them proves the target. -/
structure Added (target : String) (node : Node) (children : List Derivation)
    (seen : Std.HashSet String) (fresh : List Node) (seen' : Std.HashSet String) : Prop where
  unproved : ∀ c ∈ children, c.proves? target = .ok false
  placed : ∀ m ∈ fresh, ∃ c ∈ children, m = node.next c
  covered : ∀ c ∈ children, c.signature ∈ seen'
  kept : ∀ g ∈ seen, g ∈ seen'
  known : ∀ g ∈ seen', g ∈ seen ∨ ∃ m ∈ fresh, m.state.signature = g

section
variable {node : Node} {child : Derivation} {children rest : List Derivation}
  {nodes nodes' : List Node} {seen seen' : Std.HashSet String}

theorem round_proved (proved : child.proves? target = .ok true) :
    round target node (child :: rest) nodes seen = .ok (.found child) := by
  rw [round, proved]
  rfl

theorem round_unproved (unproved : child.proves? target = .ok false) :
    round target node (child :: rest) nodes seen =
      if seen.contains child.signature then round target node rest nodes seen
      else round target node rest (node.next child :: nodes) (seen.insert child.signature) := by
  rw [round, unproved]
  rfl

/-- Where a look-through ends well, the first successor was either what was looked for or passed
over, and then only a new one is kept. -/
theorem round_cons_ok {outcome : Round}
    (h : round target node (child :: rest) nodes seen = .ok outcome) :
    (child.proves? target = .ok true ∧ outcome = .found child) ∨
    (child.proves? target = .ok false ∧ child.signature ∈ seen ∧
      round target node rest nodes seen = .ok outcome) ∨
    (child.proves? target = .ok false ∧ child.signature ∉ seen ∧
      round target node rest (node.next child :: nodes) (seen.insert child.signature) =
        .ok outcome) := by
  obtain ⟨b, decided, -⟩ := bind_eq_ok.mp h
  cases b with
  | true =>
    rw [round_proved decided] at h
    cases h
    exact Or.inl ⟨decided, rfl⟩
  | false =>
    rw [round_unproved decided] at h
    split at h
    · rename_i old
      exact Or.inr (Or.inl ⟨decided, Std.HashSet.contains_iff_mem.mp old, h⟩)
    · rename_i new
      exact Or.inr (Or.inr ⟨decided, fun old => new (Std.HashSet.contains_iff_mem.mpr old), h⟩)

theorem round_found (h : round target node children nodes seen = .ok (.found child)) :
    child ∈ children ∧ child.proves? target = .ok true := by
  induction children generalizing nodes seen with
  | nil => cases h
  | cons c rest ih =>
    rcases round_cons_ok h with ⟨proved, same⟩ | ⟨-, -, later⟩ | ⟨-, -, later⟩
    · cases same
      exact ⟨by simp, proved⟩
    · obtain ⟨member, proved⟩ := ih later
      exact ⟨List.mem_cons_of_mem c member, proved⟩
    · obtain ⟨member, proved⟩ := ih later
      exact ⟨List.mem_cons_of_mem c member, proved⟩

theorem Added.pass {fresh : List Node} (added : Added target node rest seen fresh seen')
    (unproved : child.proves? target = .ok false) (old : child.signature ∈ seen) :
    Added target node (child :: rest) seen fresh seen' where
  unproved := List.forall_mem_cons.mpr ⟨unproved, added.unproved⟩
  placed := by
    intro m member
    obtain ⟨c, inside, same⟩ := added.placed m member
    exact ⟨c, List.mem_cons_of_mem child inside, same⟩
  covered := List.forall_mem_cons.mpr ⟨added.kept _ old, added.covered⟩
  kept := added.kept
  known := added.known

theorem Added.keep {fresh : List Node}
    (added : Added target node rest (seen.insert child.signature) fresh seen')
    (unproved : child.proves? target = .ok false) :
    Added target node (child :: rest) seen (node.next child :: fresh) seen' where
  unproved := List.forall_mem_cons.mpr ⟨unproved, added.unproved⟩
  placed := by
    refine List.forall_mem_cons.mpr ⟨⟨child, by simp, rfl⟩, ?_⟩
    intro m member
    obtain ⟨c, inside, same⟩ := added.placed m member
    exact ⟨c, List.mem_cons_of_mem child inside, same⟩
  covered := List.forall_mem_cons.mpr ⟨added.kept _ Std.HashSet.mem_insert_self, added.covered⟩
  kept := fun g old => added.kept g (Std.HashSet.mem_insert.mpr (Or.inr old))
  known := by
    intro g known
    rcases added.known g known with old | ⟨m, member, same⟩
    · rcases Std.HashSet.mem_insert.mp old with new | old
      · exact Or.inr ⟨node.next child, by simp, by simpa [Node.next] using new⟩
      · exact Or.inl old
    · exact Or.inr ⟨m, by simp [member], same⟩

theorem round_added (h : round target node children nodes seen = .ok (.added nodes' seen')) :
    ∃ fresh, nodes' = nodes.reverse ++ fresh ∧ Added target node children seen fresh seen' := by
  induction children generalizing nodes seen with
  | nil =>
    cases h
    exact ⟨[], by simp, by simp, by simp, by simp, fun _ old => old, fun _ old => Or.inl old⟩
  | cons c rest ih =>
    rcases round_cons_ok h with ⟨-, same⟩ | ⟨unproved, old, later⟩ | ⟨unproved, -, later⟩
    · cases same
    · obtain ⟨fresh, same, added⟩ := ih later
      exact ⟨fresh, same, added.pass unproved old⟩
    · obtain ⟨fresh, same, added⟩ := ih later
      exact ⟨node.next c :: fresh, by simp [same], added.keep unproved⟩

theorem added_of_round
    (h : round target node children [] seen = .ok (.added nodes seen')) :
    Added target node children seen nodes seen' := by
  obtain ⟨fresh, rfl, added⟩ := round_added h
  exact added

theorem round_total (h : ∀ c ∈ children, ∃ b, c.proves? target = .ok b) :
    ∃ outcome, round target node children nodes seen = .ok outcome := by
  induction children generalizing nodes seen with
  | nil => exact ⟨_, rfl⟩
  | cons c rest ih =>
    obtain ⟨first, later⟩ := List.forall_mem_cons.mp h
    obtain ⟨b, outcome⟩ := first
    cases b with
    | true => exact ⟨_, round_proved outcome⟩
    | false =>
      rw [round_unproved outcome]
      split
      · exact ih later
      · exact ih later

end

/-! ### The invariant -/

/-- The labels of the first `n` rounds. -/
def roundLabels (n : Nat) : List String :=
  (List.range n).map fun k => "step_" ++ toString (k + 1)

theorem roundLabels_succ (n : Nat) :
    roundLabels (n + 1) = roundLabels n ++ ["step_" ++ toString (n + 1)] := by
  simp [roundLabels, List.range_succ]

/-- A node is the end of a chain that has not proved the target. -/
structure Arrived (s : Derivation) (target : String) (limits : Limits) (m : Node) : Prop where
  chain : Chain limits.maxSteps s m.depth m.state
  path : m.path = roundLabels m.depth
  unproved : m.state.proves? target = .ok false

/-- What holds whenever the loop takes up a node; `done` were taken up before. -/
structure Frontier (s : Derivation) (target : String) (limits : Limits) (done waiting : List Node)
    (seen : Std.HashSet String) (cut : Bool) : Prop where
  arrived : ∀ m ∈ done ++ waiting, Arrived s target limits m
  root : ⟨s, 0, []⟩ ∈ done ++ waiting
  known : ∀ g ∈ seen, ∃ m ∈ done ++ waiting, m.state.signature = g
  expanded : ∀ m ∈ done, (m.depth : Int) < limits.maxDepth →
    ∀ c ∈ m.state.expand limits.maxSteps, c.signature ∈ seen
  ordered : waiting.Pairwise fun m m' => m.depth ≤ m'.depth
  near : ∀ m ∈ waiting, ∀ m' ∈ waiting, m.depth ≤ m'.depth + 1
  uncut : cut = false → ∀ m ∈ done, (m.depth : Int) < limits.maxDepth

namespace Frontier

variable {done waiting fresh : List Node} {node : Node} {seen seen' : Std.HashSet String} {cut : Bool}

theorem start (unproved : s.proves? target = .ok false) :
    Frontier s target limits [] [⟨s, 0, []⟩] (Std.HashSet.ofList [s.signature]) false where
  arrived := by
    intro m member
    rw [List.nil_append, List.mem_singleton] at member
    subst member
    exact ⟨.start, rfl, unproved⟩
  root := by simp
  known := by
    intro g member
    have same : s.signature = g := by simpa [eq_comm] using Std.HashSet.mem_ofList.mp member
    exact ⟨⟨s, 0, []⟩, by simp, same⟩
  expanded := by simp
  ordered := by simp
  near := by simp
  uncut := by simp

theorem skip (frontier : Frontier s target limits done (node :: waiting) seen cut)
    (deep : limits.maxDepth ≤ node.depth) :
    Frontier s target limits (done ++ [node]) waiting seen true := by
  have moved : (done ++ [node]) ++ waiting = done ++ node :: waiting := by simp
  refine ⟨?_, ?_, ?_, ?_, frontier.ordered.of_cons, ?_, by simp⟩
  · rw [moved]
    exact frontier.arrived
  · rw [moved]
    exact frontier.root
  · rw [moved]
    exact frontier.known
  · intro m member shallow
    rcases List.mem_append.mp member with old | last
    · exact frontier.expanded m old shallow
    · rw [List.mem_singleton.mp last] at shallow
      omega
  · intro m member m' member'
    exact frontier.near m (List.mem_cons_of_mem _ member) m' (List.mem_cons_of_mem _ member')

theorem take (frontier : Frontier s target limits done (node :: waiting) seen cut)
    (shallow : (node.depth : Int) < limits.maxDepth)
    (added : Added target node (node.state.expand limits.maxSteps) seen fresh seen') :
    Frontier s target limits (done ++ [node]) (waiting ++ fresh) seen' cut := by
  have moved : (done ++ [node]) ++ (waiting ++ fresh) = (done ++ node :: waiting) ++ fresh := by
    simp
  have later : ∀ m ∈ waiting, node.depth ≤ m.depth ∧ m.depth ≤ node.depth + 1 := by
    intro m member
    exact ⟨List.rel_of_pairwise_cons frontier.ordered member,
      frontier.near m (List.mem_cons_of_mem _ member) node (by simp)⟩
  have last : ∀ m ∈ fresh, m.depth = node.depth + 1 := by
    intro m member
    obtain ⟨c, -, rfl⟩ := added.placed m member
    rfl
  refine ⟨?_, ?_, ?_, ?_, ?_, ?_, ?_⟩
  · intro m member
    rw [moved] at member
    rcases List.mem_append.mp member with old | new
    · exact frontier.arrived m old
    · obtain ⟨c, child, rfl⟩ := added.placed m new
      have parent := frontier.arrived node (by simp)
      refine ⟨.next parent.chain child, ?_, added.unproved c child⟩
      rw [Node.next, parent.path, roundLabels_succ]
  · rw [moved]
    exact List.mem_append_left _ frontier.root
  · intro g member
    rw [moved]
    rcases added.known g member with old | ⟨m, new, same⟩
    · obtain ⟨m, inside, same⟩ := frontier.known g old
      exact ⟨m, List.mem_append_left _ inside, same⟩
    · exact ⟨m, List.mem_append_right _ new, same⟩
  · intro m member shallow' c child
    rcases List.mem_append.mp member with old | new
    · exact added.kept _ (frontier.expanded m old shallow' c child)
    · rw [List.mem_singleton.mp new] at child
      exact added.covered c child
  · refine List.pairwise_append.mpr ⟨frontier.ordered.of_cons, ?_, ?_⟩
    · refine List.pairwise_of_forall_mem_list fun m member m' member' => ?_
      exact Nat.le_of_eq ((last m member).trans (last m' member').symm)
    · intro m member m' member'
      rw [last m' member']
      exact (later m member).2
  · have level : ∀ m ∈ waiting ++ fresh, node.depth ≤ m.depth ∧ m.depth ≤ node.depth + 1 := by
      intro m member
      rcases List.mem_append.mp member with old | new
      · exact later m old
      · have depth := last m new
        omega
    intro m member m' member'
    have bound := level m member
    have bound' := level m' member'
    omega
  · intro whole m member
    rcases List.mem_append.mp member with old | new
    · exact frontier.uncut whole m old
    · rw [List.mem_singleton.mp new]
      exact shallow

/-- Every chain no longer than what waits ends like a node that was reached. -/
theorem represented {n : Nat} (frontier : Frontier s target limits done waiting seen cut)
    (readable : ∀ f ∈ s.formulas, Formula.Reads f) (chain : Chain limits.maxSteps s n t)
    (low : ∀ m ∈ waiting, n ≤ m.depth) (shallow : (n : Int) ≤ max limits.maxDepth 0 ∨ cut = false) :
    ∃ m ∈ done ++ waiting, m.depth = n ∧ Alike s t m.state := by
  induction chain with
  | start => exact ⟨_, frontier.root, rfl, .refl s⟩
  | @next n t u chain child ih =>
    have low' : ∀ m ∈ waiting, n ≤ m.depth := fun m member => Nat.le_of_succ_le (low m member)
    have shallow' : (n : Int) ≤ max limits.maxDepth 0 ∨ cut = false :=
      shallow.imp_left fun bound => by omega
    obtain ⟨m, member, depth, alike⟩ := ih low' shallow'
    -- A node of this depth no longer waits, so its successors have been looked through.
    have taken : m ∈ done := by
      rcases List.mem_append.mp member with taken | waits
      · exact taken
      · have later := low m waits
        omega
    have within : (m.depth : Int) < limits.maxDepth := by
      rcases shallow with bound | uncut
      · omega
      · exact frontier.uncut uncut m taken
    obtain ⟨u', child', alike'⟩ := alike.follow readable child
    -- `u'` itself may have been dropped, but then for a node of the same signature.
    obtain ⟨m', member', same⟩ := frontier.known _ (frontier.expanded m taken within u' child')
    have chain' := Chain.next (frontier.arrived m member).chain child'
    have arrived := (frontier.arrived m' member').chain
    have level := chain'.alike arrived readable same.symm
    refine ⟨m', member', ?_, alike'.trans level⟩
    have count := level.length_steps
    rw [chain'.length_steps, arrived.length_steps] at count
    omega

/-- No chain that is no longer than what waits has proved the target. -/
theorem unproved {n : Nat} (frontier : Frontier s target limits done waiting seen cut)
    (readable : ∀ f ∈ s.formulas, Formula.Reads f) (chain : Chain limits.maxSteps s n t)
    (low : ∀ m ∈ waiting, n ≤ m.depth) (shallow : (n : Int) ≤ max limits.maxDepth 0 ∨ cut = false) :
    t.proves? target = .ok false := by
  obtain ⟨m, member, -, alike⟩ := frontier.represented readable chain low shallow
  exact alike.symm.proves?_eq_false (frontier.arrived m member).unproved

end Frontier

end Premise.Derivation
