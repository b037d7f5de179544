import Premise.Proof
import Premise.Proofs.Derivation.Lookup
import Premise.Proofs.Extraction.Lineage

/-!
The walk back through lineage. It is told without fuel as `Walk`, and `walkBack_total` says that the
links of an arena are fuel enough for it. Main statements: `extract_walk`, and `Walk.nodup`,
`Walk.complete` and `Walk.cited` about the lines that a walk leaves.
-/
namespace Premise.Derivation

variable {s : Derivation} {line target : ProofLine} {pending lines result : List ProofLine}
  {ref : Ref} {fuel : Nat}

/-- What the step that is referred to was made from; facts were made from nothing. -/
def antecedents (s : Derivation) : Ref → List Ref
  | .fact _ => []
  | .step i => (s.steps[i]?.map (·.antecedents)).getD []

/-- The antecedents of a line, one link further away from the target. -/
def parents (s : Derivation) (line : ProofLine) : List ProofLine :=
  (s.antecedents line.ref).map fun ref => ⟨ref, line.depth + 1⟩

def refs (lines : List ProofLine) : List Ref :=
  lines.map (·.ref)

theorem mem_antecedents {i : Nat} {a : Ref} :
    a ∈ s.antecedents (.step i) ↔ ∃ x, s.steps[i]? = some x ∧ a ∈ x.antecedents := by
  change a ∈ (s.steps[i]?.map (·.antecedents)).getD [] ↔ _
  cases s.steps[i]? with
  | none => simp
  | some x => simp

theorem refs_parents (s : Derivation) (line : ProofLine) :
    refs (s.parents line) = s.antecedents line.ref := by
  simp [refs, parents, Function.comp_def]

@[simp] theorem refs_cons (line : ProofLine) (lines : List ProofLine) :
    refs (line :: lines) = line.ref :: refs lines := rfl

@[simp] theorem refs_append (left right : List ProofLine) :
    refs (left ++ right) = refs left ++ refs right := List.map_append

/-- From what is pending and the lines so far, the walk comes to a list of lines. -/
inductive Walk (s : Derivation) : List ProofLine → List ProofLine → List ProofLine → Prop where
  | done {lines : List ProofLine} : Walk s [] lines lines
  | skip {line : ProofLine} {pending lines result : List ProofLine} :
      line.ref ∈ refs lines → Walk s pending lines result → Walk s (line :: pending) lines result
  | meet {line : ProofLine} {pending lines result : List ProofLine} :
      line.ref ∉ refs lines → Walk s (s.parents line ++ pending) (line :: lines) result →
      Walk s (line :: pending) lines result

/-! ### Fuel -/

/-- The links of the steps that were not met; the first of the steps stands at `k`. -/
def unmet (met : List Ref) : Nat → List Step → Nat
  | _, [] => 0
  | k, x :: xs => (if .step k ∈ met then 0 else x.antecedents.length) + unmet met (k + 1) xs

theorem unmet_fact (f : String) (met : List Ref) (k : Nat) (xs : List Step) :
    unmet (.fact f :: met) k xs = unmet met k xs := by
  induction xs generalizing k with
  | nil => rfl
  | cons x xs ih => simp [unmet, ih]

theorem unmet_earlier {j k : Nat} (before : j < k) (met : List Ref) (xs : List Step) :
    unmet (.step j :: met) k xs = unmet met k xs := by
  induction xs generalizing k with
  | nil => rfl
  | cons x xs ih =>
    have other : k ≠ j := by omega
    rw [unmet, unmet, ih (by omega)]
    simp [other]

theorem unmet_meet {met : List Ref} {k i : Nat} {xs : List Step} {x : Step}
    (here : xs[i]? = some x) (new : .step (k + i) ∉ met) :
    unmet (.step (k + i) :: met) k xs + x.antecedents.length = unmet met k xs := by
  induction xs generalizing k i with
  | nil => cases here
  | cons y xs ih =>
    cases i with
    | zero =>
      cases here
      rw [Nat.add_zero] at new ⊢
      rw [unmet, unmet, unmet_earlier (Nat.lt_add_one k), if_neg new, if_pos (by simp)]
      omega
    | succ i =>
      have shifted : k + 1 + i = k + (i + 1) := by omega
      have other : k ≠ k + (i + 1) := by omega
      have later := ih (k := k + 1) here (by rwa [shifted])
      rw [shifted] at later
      rw [unmet, unmet, ← later]
      simp only [List.mem_cons, Ref.step.injEq, other, false_or]
      omega

theorem linkCount_eq (s : Derivation) : s.linkCount = unmet [] 0 s.steps := by
  have added (n k : Nat) (xs : List Step) :
      xs.foldl (fun n step => n + step.antecedents.length) n = n + unmet [] k xs := by
    induction xs generalizing n k with
    | nil => rfl
    | cons x xs ih =>
      rw [List.foldl_cons, ih _ (k + 1), unmet, if_neg List.not_mem_nil]
      omega
  rw [linkCount, added 0 0, Nat.zero_add]

/-- A fact, or a step of the arena. -/
def Present (s : Derivation) : Ref → Prop
  | .fact _ => True
  | .step i => i < s.steps.length

theorem Linked.present (linked : s.Linked) {a : Ref} (cited : a ∈ s.antecedents ref) :
    s.Present a := by
  cases ref with
  | fact f => cases cited
  | step i =>
    obtain ⟨x, here, inside⟩ := mem_antecedents.mp cited
    cases a with
    | fact f => trivial
    | step j => exact linked.within x (List.mem_of_getElem? here) j inside

theorem walkBack_skip (met : line.ref ∈ refs lines) :
    s.walkBack (fuel + 1) (line :: pending) lines = s.walkBack fuel pending lines := by
  have found : lines.any (·.ref = line.ref) = true := by
    obtain ⟨other, member, same⟩ := List.mem_map.mp met
    exact List.any_eq_true.mpr ⟨other, member, by simpa using same⟩
  rw [walkBack, if_pos found]

theorem walkBack_meet (new : line.ref ∉ refs lines) (present : s.Present line.ref) :
    s.walkBack (fuel + 1) (line :: pending) lines =
      s.walkBack fuel (s.parents line ++ pending) (line :: lines) := by
  have unknown : ¬ lines.any (·.ref = line.ref) = true := by
    intro found
    obtain ⟨other, member, same⟩ := List.any_eq_true.mp found
    exact new (List.mem_map.mpr ⟨other, member, by simpa using same⟩)
  rw [walkBack, if_neg unknown]
  obtain ⟨ref, depth⟩ := line
  cases ref with
  | fact f => rfl
  | step i =>
    have here : s.steps[i]? = some s.steps[i] := List.getElem?_eq_getElem present
    simp [parents, antecedents, here]

/-- What meeting a line adds to what is pending, it takes away from what was not met. -/
theorem meet_spends (new : line.ref ∉ refs lines) (present : s.Present line.ref) :
    (s.parents line).length + unmet (refs (line :: lines)) 0 s.steps =
      unmet (refs lines) 0 s.steps := by
  rw [parents, List.length_map, refs_cons]
  obtain ⟨ref, depth⟩ := line
  cases ref with
  | fact f => rw [unmet_fact, antecedents, List.length_nil, Nat.zero_add]
  | step i =>
    have here : s.steps[i]? = some s.steps[i] := List.getElem?_eq_getElem present
    have count := unmet_meet (k := 0) here (by rwa [Nat.zero_add])
    rw [Nat.zero_add] at count
    rw [antecedents, here, ← count, Nat.add_comm]
    rfl

theorem walkBack_total (linked : s.Linked) (present : ∀ line ∈ pending, s.Present line.ref)
    (enough : pending.length + unmet (refs lines) 0 s.steps ≤ fuel) :
    ∃ result, s.walkBack fuel pending lines = .ok result ∧ Walk s pending lines result := by
  induction fuel generalizing pending lines with
  | zero =>
    have empty : pending = [] := List.length_eq_zero_iff.mp (by omega)
    subst empty
    exact ⟨lines, rfl, .done⟩
  | succ fuel ih =>
    cases pending with
    | nil => exact ⟨lines, rfl, .done⟩
    | cons line pending =>
      obtain ⟨first, rest⟩ := List.forall_mem_cons.mp present
      rw [List.length_cons] at enough
      by_cases met : line.ref ∈ refs lines
      · have room : pending.length + unmet (refs lines) 0 s.steps ≤ fuel := by omega
        obtain ⟨result, walked, walk⟩ := ih rest room
        exact ⟨result, (walkBack_skip met).trans walked, .skip met walk⟩
      · have spent := meet_spends met first
        have present' : ∀ q ∈ s.parents line ++ pending, s.Present q.ref := by
          intro q member
          rcases List.mem_append.mp member with parent | old
          · obtain ⟨a, cited, rfl⟩ := List.mem_map.mp parent
            exact linked.present cited
          · exact rest q old
        have room : (s.parents line ++ pending).length + unmet (refs (line :: lines)) 0 s.steps ≤
            fuel := by
          rw [List.length_append]
          omega
        obtain ⟨result, walked, walk⟩ := ih present' room
        exact ⟨result, (walkBack_meet met first).trans walked, .meet met walk⟩

/-- Extraction is the walk back from the earliest step that holds the formula. -/
theorem extract_walk {formula : String} {x : Step} (linked : s.Linked)
    (found : s.proofStep? formula = .ok (some x)) : ∃ i lines, s.Earliest formula i x ∧
      s.extract formula = .ok lines ∧ Walk s [⟨.step i, 0⟩] [] lines := by
  obtain ⟨i, earliest⟩ := proofStep?_some found
  have present : ∀ line ∈ [(⟨.step i, 0⟩ : ProofLine)], s.Present line.ref := by
    intro line member
    rw [List.mem_singleton.mp member]
    exact (List.getElem?_eq_some_iff.mp earliest.here).1
  have enough : [(⟨.step i, 0⟩ : ProofLine)].length + unmet (refs []) 0 s.steps ≤ s.linkCount + 1 := by
    rw [linkCount_eq, List.length_singleton, Nat.add_comm]
    exact Nat.le_refl _
  obtain ⟨lines, walked, walk⟩ := walkBack_total linked present enough
  refine ⟨i, lines, earliest, ?_, walk⟩
  rw [extract, found]
  dsimp only
  rw [linked.indexed i x earliest.here]
  exact walked

/-! ### Lines -/

namespace Walk

theorem nodup (walk : Walk s pending lines result) (distinct : (refs lines).Nodup) :
    (refs result).Nodup := by
  induction walk with
  | done => exact distinct
  | skip _ _ ih => exact ih distinct
  | meet new _ ih => exact ih (List.nodup_cons.mpr ⟨new, distinct⟩)

theorem complete (walk : Walk s pending lines result)
    (pend : ∀ m ∈ refs lines, ∀ a ∈ s.antecedents m, a ∈ refs lines ∨ a ∈ refs pending) :
    ∀ m ∈ refs result, ∀ a ∈ s.antecedents m, a ∈ refs result := by
  induction walk with
  | done =>
    intro m member a cited
    exact (pend m member a cited).resolve_right List.not_mem_nil
  | @skip line pending lines result met _ ih =>
    refine ih fun m member a cited => ?_
    rcases pend m member a cited with listed | waiting
    · exact Or.inl listed
    · rcases List.mem_cons.mp waiting with rfl | later
      · exact Or.inl met
      · exact Or.inr later
  | @meet line pending lines result _ _ ih =>
    refine ih fun m member a cited => ?_
    rw [refs_cons, refs_append, refs_parents, List.mem_cons, List.mem_append]
    rcases List.mem_cons.mp member with rfl | old
    · exact Or.inr (Or.inl cited)
    · rcases pend m old a cited with listed | waiting
      · exact Or.inl (Or.inr listed)
      · rcases List.mem_cons.mp waiting with rfl | later
        · exact Or.inl (Or.inl rfl)
        · exact Or.inr (Or.inr later)

end Walk

/-- The second line is an antecedent of the first, one link further away. -/
def Cites (s : Derivation) (line parent : ProofLine) : Prop :=
  parent.ref ∈ s.antecedents line.ref ∧ parent.depth = line.depth + 1

/-- The target stands last, and every other line is cited by one behind it. -/
inductive Cited (s : Derivation) (target : ProofLine) : List ProofLine → Prop where
  | target : Cited s target [target]
  | cons {line citing : ProofLine} {lines : List ProofLine} :
      citing ∈ lines → s.Cites citing line → Cited s target lines → Cited s target (line :: lines)

theorem Walk.cited (walk : Walk s pending lines result) (cited : Cited s target lines)
    (waiting : ∀ q ∈ pending, ∃ citing ∈ lines, s.Cites citing q) : Cited s target result := by
  induction walk with
  | done => exact cited
  | skip _ _ ih => exact ih cited (List.forall_mem_cons.mp waiting).2
  | @meet line pending lines result _ _ ih =>
    obtain ⟨⟨citing, listed, cites⟩, rest⟩ := List.forall_mem_cons.mp waiting
    refine ih (.cons listed cites cited) fun q member => ?_
    rcases List.mem_append.mp member with parent | old
    · obtain ⟨a, made, rfl⟩ := List.mem_map.mp parent
      exact ⟨line, List.mem_cons_self, made, rfl⟩
    · obtain ⟨citing, listed, cites⟩ := rest q old
      exact ⟨citing, List.mem_cons_of_mem line listed, cites⟩

theorem Walk.cited_target (walk : Walk s [target] [] result) : Cited s target result := by
  cases walk with
  | skip met _ => cases met
  | meet _ walk =>
    refine walk.cited .target fun q member => ?_
    rw [List.append_nil] at member
    obtain ⟨a, made, rfl⟩ := List.mem_map.mp member
    exact ⟨target, List.mem_cons_self, made, rfl⟩

theorem Cited.last (cited : Cited s target lines) : lines.getLast? = some target := by
  induction cited with
  | target => rfl
  | @cons line citing lines member _ _ ih =>
    have full : lines ≠ [] := List.ne_nil_of_mem member
    rw [List.getLast?_cons_of_ne_nil full, ih]

theorem Cited.present (cited : Cited s target lines) (linked : s.Linked)
    (first : s.Present target.ref) : ∀ line ∈ lines, s.Present line.ref := by
  induction cited with
  | target =>
    intro line member
    rw [List.mem_singleton.mp member]
    exact first
  | cons _ cites _ ih =>
    intro line member
    rcases List.mem_cons.mp member with rfl | member
    · exact linked.present cites.1
    · exact ih line member

theorem Cited.behind {early late : List ProofLine}
    (cited : Cited s target (early ++ line :: late)) :
    (late = [] ∧ line = target) ∨ ∃ citing ∈ late, s.Cites citing line := by
  induction early with
  | nil =>
    cases cited with
    | target => exact Or.inl ⟨rfl, rfl⟩
    | cons member cites _ => exact Or.inr ⟨_, member, cites⟩
  | cons first early ih =>
    generalize same : first :: early ++ line :: late = all at cited
    cases cited with
    | target =>
      have count := congrArg List.length same
      simp at count
    | cons _ _ rest =>
      obtain ⟨-, rfl⟩ := List.cons.inj same
      exact ih rest

end Premise.Derivation
