import Mathlib.Algebra.GroupWithZero.Nat
import Premise.Proofs.Search.Completeness

/-!
Bounds that cannot be hit. A node is charged for all that can come of it within the depth limit, and
to take it up pays for more than its successors are charged, so that no search needs more than what
its first node is charged. Main statement: `search_whole`.
-/
namespace Premise

/-- No derivation has more successors than this. -/
def Limits.branching (limits : Limits) : Nat :=
  7 * limits.maxSteps.toNat ^ 2

/-- What a node of this depth is charged. -/
def Limits.charge (limits : Limits) (depth : Nat) : Nat :=
  (limits.branching + 1) ^ (limits.maxDepth - depth).toNat

theorem Limits.charge_pos (limits : Limits) (depth : Nat) : 0 < limits.charge depth :=
  Nat.pow_pos (Nat.succ_pos _)

theorem Limits.charge_next {limits : Limits} {depth : Nat}
    (shallow : (depth : Int) < limits.maxDepth) :
    limits.branching * limits.charge (depth + 1) + 1 ≤ limits.charge depth := by
  have rounds : (limits.maxDepth - depth).toNat =
      (limits.maxDepth - (depth + 1 : Nat)).toNat + 1 := by
    omega
  have paid := limits.charge_pos (depth + 1)
  have whole : limits.charge depth = limits.charge (depth + 1) * (limits.branching + 1) := by
    rw [charge, charge, rounds, Nat.pow_succ]
  rw [whole, Nat.mul_add, Nat.mul_one, Nat.mul_comm limits.branching]
  omega

namespace Derivation

variable {s : Derivation} {target : String} {limits : Limits} {r : SearchResult}

/-! ### Successors -/

theorem length_flatMap_le {α β : Type} {l : List α} {g : α → List β} {k : Nat}
    (each : ∀ x ∈ l, (g x).length ≤ k) : (l.flatMap g).length ≤ l.length * k := by
  induction l with
  | nil => simp
  | cons x l ih =>
    obtain ⟨first, rest⟩ := List.forall_mem_cons.mp each
    have later := ih rest
    rw [List.flatMap_cons, List.length_append, List.length_cons, Nat.succ_mul]
    omega

theorem length_expand (s : Derivation) (limits : Limits) :
    (s.expand limits.maxSteps).length ≤ limits.branching := by
  unfold expand
  split
  · simp
  · rename_i room
    dsimp only
    have pair : ∀ a ∈ s.steps, (s.steps.flatMap fun b =>
        pairInferences.filterMap (s.successor? s.known [a, b])).length ≤ s.steps.length * 4 :=
      fun a _ => length_flatMap_le fun b _ => List.length_filterMap_le _ _
    have pairs := length_flatMap_le pair
    have soles : (s.steps.flatMap fun a =>
        soleInferences.filterMap (s.successor? s.known [a])).length ≤ s.steps.length * 3 :=
      length_flatMap_le fun a _ => List.length_filterMap_le _ _
    have few : s.steps.length ≤ limits.maxSteps.toNat := by omega
    have square := Nat.mul_le_mul few few
    have linear : s.steps.length ≤ s.steps.length * s.steps.length := Nat.le_mul_self _
    rw [List.length_append, Limits.branching, Nat.pow_two]
    rw [← Nat.mul_assoc] at pairs
    omega

theorem length_round {node : Node} {children : List Derivation} {nodes nodes' : List Node}
    {seen seen' : Std.HashSet String}
    (h : round target node children nodes seen = .ok (.added nodes' seen')) :
    nodes'.length ≤ nodes.length + children.length := by
  induction children generalizing nodes seen with
  | nil =>
    cases h
    simp
  | cons c rest ih =>
    rw [List.length_cons]
    rcases round_cons_ok h with ⟨-, same⟩ | ⟨-, -, later⟩ | ⟨-, -, later⟩
    · cases same
    · have bound := ih later
      omega
    · have bound := ih later
      rw [List.length_cons] at bound
      omega

/-! ### What waits -/

/-- What the nodes that wait are charged together. -/
def owed (limits : Limits) (waiting : List Node) : Nat :=
  (waiting.map fun m => limits.charge m.depth).sum

@[simp] theorem owed_cons (limits : Limits) (node : Node) (waiting : List Node) :
    owed limits (node :: waiting) = limits.charge node.depth + owed limits waiting := rfl

@[simp] theorem owed_append (limits : Limits) (waiting fresh : List Node) :
    owed limits (waiting ++ fresh) = owed limits waiting + owed limits fresh := by
  simp [owed]

theorem length_le_owed (limits : Limits) (waiting : List Node) :
    waiting.length ≤ owed limits waiting := by
  induction waiting with
  | nil => exact Nat.zero_le _
  | cons node waiting ih =>
    have paid := limits.charge_pos node.depth
    rw [owed_cons, List.length_cons]
    omega

theorem owed_level {depth : Nat} {fresh : List Node} (level : ∀ m ∈ fresh, m.depth = depth) :
    owed limits fresh = fresh.length * limits.charge depth := by
  have same : fresh.map (fun m => limits.charge m.depth) = fresh.map fun _ => limits.charge depth :=
    List.map_congr_left fun m member => by rw [level m member]
  rw [owed, same, List.map_const', List.sum_replicate_nat]

theorem owed_round {node : Node} {fresh : List Node} {seen seen' : Std.HashSet String}
    (shallow : (node.depth : Int) < limits.maxDepth)
    (looked : round target node (node.state.expand limits.maxSteps) [] seen =
      .ok (.added fresh seen')) : owed limits fresh + 1 ≤ limits.charge node.depth := by
  have level : ∀ m ∈ fresh, m.depth = node.depth + 1 := by
    intro m member
    obtain ⟨c, -, rfl⟩ := (added_of_round looked).placed m member
    rfl
  have few : fresh.length ≤ limits.branching := by
    have count := length_round looked
    have children := length_expand node.state limits
    rw [List.length_nil] at count
    omega
  have cost := Nat.mul_le_mul_right (limits.charge (node.depth + 1)) few
  have paid := Limits.charge_next shallow
  rw [owed_level level]
  omega

/-! ### The loop -/

theorem explore_whole {budget taken : Nat} {done waiting : List Node} {seen : Std.HashSet String}
    {cut : Bool} (frontier : Frontier s target limits done waiting seen cut)
    (paid : owed limits waiting ≤ budget) (room : (owed limits waiting : Int) ≤ limits.maxQueue)
    (h : explore limits target budget taken waiting seen cut = .ok r) : r.halt.gaveUp = false := by
  induction budget generalizing taken done waiting seen cut with
  | zero =>
    cases waiting with
    | nil =>
      rw [explore_nil] at h
      cases h
      cases cut <;> rfl
    | cons node waiting =>
      have owes := limits.charge_pos node.depth
      rw [owed_cons] at paid
      omega
  | succ budget ih =>
    cases waiting with
    | nil =>
      rw [explore_nil] at h
      cases h
      cases cut <;> rfl
    | cons node waiting =>
      have owes := limits.charge_pos node.depth
      have short := length_le_owed limits waiting
      rw [owed_cons] at paid room
      rcases explore_cons_ok (frontier.arrived node (by simp)).unproved h with ⟨full, -⟩ |
        ⟨deep, h⟩ | ⟨-, child, -, -, rfl⟩ | ⟨shallow, fresh, seen', looked, h⟩
      · omega
      · exact ih (frontier.skip deep) (by omega) (by omega) h
      · rfl
      · -- The node pays for its successors and for its own turn.
        have less := owed_round shallow looked
        have after := owed_append limits waiting fresh
        have added := added_of_round looked
        exact ih (frontier.take shallow added) (by omega) (by omega) h

/-- A search whose bounds cover what its first node is charged never gives up. -/
theorem search_whole (enough : (limits.charge 0 : Int) ≤ limits.maxIterations)
    (room : (limits.charge 0 : Int) ≤ limits.maxQueue)
    (found : s.search target limits = .ok r) : r.halt.gaveUp = false := by
  rcases search_cases found with ⟨-, rfl⟩ | ⟨names, -, -, -, rfl⟩ | ⟨unproved, -, explored⟩
  · rfl
  · rfl
  · have owes : owed limits [⟨s, 0, []⟩] = limits.charge 0 := Nat.add_zero _
    exact explore_whole (.start unproved) (by omega) (by omega) explored

end Derivation

end Premise
