import Premise.Proofs.Derivation.Knowledge

/-!
Looking a formula up among the steps of an arena. The earliest step that holds it is found, whatever
its provenance, and only where every step can be read. Main statements: `proofStep?_some` and
`proofStep?_none`.
-/
namespace Premise

/-- The step holds a formula that means the same as the target. -/
def Step.Holds (limit : Option Nat) (target : String) (x : Step) : Prop :=
  ∃ f ∈ x.formulas, ∃ c, Formula.canonical limit f = .ok c ∧ Formula.canonical limit target = .ok c

namespace Derivation

variable {s : Derivation} {target c : String} {x : Step}

theorem holds_of_anyM {b : Bool} (read : Formula.canonical s.limit target = .ok c)
    (looked : x.formulas.anyM (s.matches? c) = .ok b) : b = true ↔ x.Holds s.limit target := by
  constructor
  · rintro rfl
    obtain ⟨f, member, passes⟩ := exists_of_anyM looked
    obtain ⟨d, read', same⟩ := matches?_eq_ok.mp passes
    have same : d = c := by simpa using same
    exact ⟨f, member, c, same ▸ read', read⟩
  · rintro ⟨f, member, d, read', again⟩
    cases read.symm.trans again
    cases b with
    | true => rfl
    | false =>
      obtain ⟨d, read'', other⟩ := matches?_eq_ok.mp (anyM_eq_false.mp looked f member)
      cases read'.symm.trans read''
      simp at other

/-- The lookup reads the target and every step. -/
theorem proofStep?_eq_ok {r : Option Step} : s.proofStep? target = .ok r ↔
    ∃ c, Formula.canonical s.limit target = .ok c ∧
      (∀ x ∈ s.steps, ∃ b, x.formulas.anyM (s.matches? c) = .ok b) ∧
      r = s.steps.find? fun x => (x.formulas.anyM (s.matches? c)).toOption.getD false := by
  unfold proofStep? stepsHolding
  simp only [bind_eq_ok, pure, Except.pure, Except.ok.injEq, filterM_eq_ok]
  constructor
  · rintro ⟨xs, ⟨c, read, decided, rfl⟩, rfl⟩
    exact ⟨c, read, decided, List.head?_filter ..⟩
  · rintro ⟨c, read, decided, rfl⟩
    exact ⟨_, ⟨c, read, decided, rfl⟩, List.head?_filter ..⟩

theorem holds_of_decided (read : Formula.canonical s.limit target = .ok c)
    (decided : ∃ b, x.formulas.anyM (s.matches? c) = .ok b) :
    (x.formulas.anyM (s.matches? c)).toOption.getD false = true ↔ x.Holds s.limit target := by
  obtain ⟨b, looked⟩ := decided
  rw [looked]
  exact holds_of_anyM read looked

/-- Of all steps that hold the target, this is the first. -/
structure Earliest (s : Derivation) (target : String) (i : Nat) (x : Step) : Prop where
  here : s.steps[i]? = some x
  holds : x.Holds s.limit target
  first : ∀ j < i, ∀ y, s.steps[j]? = some y → ¬ y.Holds s.limit target

theorem proofStep?_some (found : s.proofStep? target = .ok (some x)) :
    ∃ i, s.Earliest target i x := by
  obtain ⟨c, read, decided, first⟩ := proofStep?_eq_ok.mp found
  obtain ⟨holds, i, inside, here, before⟩ := List.find?_eq_some_iff_getElem.mp first.symm
  have member : x ∈ s.steps := here ▸ List.getElem_mem inside
  refine ⟨i, ?_, (holds_of_decided read (decided x member)).mp holds, ?_⟩
  · rw [List.getElem?_eq_getElem inside, here]
  · intro j early y there held
    obtain ⟨inside', rfl⟩ := List.getElem?_eq_some_iff.mp there
    have passes := (holds_of_decided read (decided _ (List.getElem_mem inside'))).mpr held
    have fails := before j early
    rw [passes] at fails
    cases fails

theorem proofStep?_none (found : s.proofStep? target = .ok none) :
    ∀ x ∈ s.steps, ¬ x.Holds s.limit target := by
  obtain ⟨c, read, decided, first⟩ := proofStep?_eq_ok.mp found
  intro x member held
  have fails := List.find?_eq_none.mp first.symm x member
  exact fails ((holds_of_decided read (decided x member)).mpr held)

/-- A step is found exactly where one holds the target. -/
theorem proofStep?_isSome {r : Option Step} (found : s.proofStep? target = .ok r) :
    r.isSome = true ↔ ∃ x ∈ s.steps, x.Holds s.limit target := by
  cases r with
  | none => simpa using proofStep?_none found
  | some x =>
    obtain ⟨i, earliest⟩ := proofStep?_some found
    exact iff_of_true rfl ⟨x, List.mem_of_getElem? earliest.here, earliest.holds⟩

/-- Where the lookup succeeds, the formula of each step can be read. -/
theorem proofStep?_readable {r : Option Step} {g : String} (looked : s.proofStep? target = .ok r)
    (member : x ∈ s.steps) (single : x.formulas = [g]) :
    ∃ d, Formula.canonical s.limit g = .ok d := by
  obtain ⟨c, -, decided, -⟩ := proofStep?_eq_ok.mp looked
  obtain ⟨b, scanned⟩ := decided x member
  rw [single, List.anyM_cons] at scanned
  obtain ⟨_, scanned, -⟩ := bind_eq_ok.mp scanned
  obtain ⟨d, read, -⟩ := matches?_eq_ok.mp scanned
  exact ⟨d, read⟩

/-- The lookup fails with the target or with the formula of a step. -/
theorem proofStep?_error {e : FormulaError} (failed : s.proofStep? target = .error e) :
    Formula.canonical s.limit target = .error e ∨
      ∃ x ∈ s.steps, ∃ f ∈ x.formulas, Formula.canonical s.limit f = .error e := by
  rcases bind_eq_error.mp failed with holding | ⟨xs, -, failed⟩
  · rcases bind_eq_error.mp holding with unread | ⟨c, -, filtering⟩
    · exact Or.inl unread
    · obtain ⟨x, member, looking⟩ := exists_of_filterM_error filtering
      obtain ⟨f, inside, matching⟩ := exists_of_anyM_error looking
      rcases bind_eq_error.mp matching with unread | ⟨d, -, matching⟩
      · exact Or.inr ⟨x, member, f, inside, unread⟩
      · cases matching
  · cases failed

theorem proofStep?_decided (read : Formula.canonical s.limit target = .ok c)
    (readable : ∀ x ∈ s.steps, ∀ f ∈ x.formulas, ∃ d, Formula.canonical s.limit f = .ok d) :
    ∃ r, s.proofStep? target = .ok r := by
  refine ⟨_, proofStep?_eq_ok.mpr ⟨c, read, fun x member => anyM_total fun f inside => ?_, rfl⟩⟩
  obtain ⟨d, read'⟩ := readable x member f inside
  exact ⟨d == c, matches?_eq_ok.mpr ⟨d, read', rfl⟩⟩

theorem proofStep?_total (unlimited : s.limit = none) (reads : Formula.Reads target)
    (readable : ∀ f ∈ s.formulas, Formula.Reads f) : ∃ r, s.proofStep? target = .ok r := by
  obtain ⟨c, read⟩ := canonical_total unlimited reads
  refine proofStep?_decided read fun x member f inside => canonical_total unlimited ?_
  exact readable f (List.mem_append_right _ (List.mem_flatMap.mpr ⟨x, member, inside⟩))

end Derivation

end Premise
