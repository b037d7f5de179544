import Premise.Proofs.Extraction.Status
import Premise.Proofs.Reasoning.Running

/-!
How searches and extractions fail. Where all that is held can be read, and so in every state that
rules lead to, they fail exactly for targets that are no formulas; an extraction also fails where it
comes to a step that is not in the arena, or begins at one without index. Main statement:
`runs_fail_with_target`.
-/
namespace Premise.Derivation

variable {s t : Derivation} {target : String} {line : ProofLine} {pending lines : List ProofLine}
  {fuel : Nat}

/-! ### Walking back -/

/-- The walk was sent to a place beyond the arena, by what was pending or by a step. -/
def Astray (s : Derivation) (pending : List ProofLine) (i : Nat) : Prop :=
  s.steps.length ≤ i ∧
    ((∃ line ∈ pending, line.ref = .step i) ∨ ∃ x ∈ s.steps, Ref.step i ∈ x.antecedents)

theorem Astray.later {i : Nat} (astray : s.Astray pending i) :
    s.Astray (line :: pending) i := by
  obtain ⟨beyond, ⟨other, member, sent⟩ | cited⟩ := astray
  · exact ⟨beyond, Or.inl ⟨other, List.mem_cons_of_mem _ member, sent⟩⟩
  · exact ⟨beyond, Or.inr cited⟩

theorem Astray.of_parents {i : Nat} (astray : s.Astray (s.parents line ++ pending) i) :
    s.Astray (line :: pending) i := by
  obtain ⟨beyond, ⟨other, member, sent⟩ | cited⟩ := astray
  · rcases List.mem_append.mp member with parent | old
    · obtain ⟨a, inside, rfl⟩ := List.mem_map.mp parent
      have same : a = .step i := sent
      subst same
      cases place : line.ref with
      | fact f =>
        rw [place] at inside
        cases inside
      | step j =>
        rw [place] at inside
        obtain ⟨x, here, cited⟩ := mem_antecedents.mp inside
        exact ⟨beyond, Or.inr ⟨x, List.mem_of_getElem? here, cited⟩⟩
    · exact Astray.later ⟨beyond, Or.inl ⟨other, old, sent⟩⟩
  · exact ⟨beyond, Or.inr cited⟩

theorem walkBack_error {e : ProofError} (failed : s.walkBack fuel pending lines = .error e) :
    ∃ i, e = .noStep (some i) ∧ s.Astray pending i := by
  induction fuel generalizing pending lines with
  | zero => cases failed
  | succ fuel ih =>
    cases pending with
    | nil => cases failed
    | cons line pending =>
      by_cases met : line.ref ∈ refs lines
      · rw [walkBack_skip met] at failed
        obtain ⟨i, why, astray⟩ := ih failed
        exact ⟨i, why, astray.later⟩
      · by_cases present : s.Present line.ref
        · rw [walkBack_meet met present] at failed
          obtain ⟨i, why, astray⟩ := ih failed
          exact ⟨i, why, astray.of_parents⟩
        · obtain ⟨ref, depth⟩ := line
          cases ref with
          | fact f => exact absurd trivial present
          | step i =>
            have beyond : s.steps.length ≤ i := Nat.le_of_not_lt present
            have unknown : ¬ lines.any (·.ref = .step i) = true := by
              intro found
              obtain ⟨other, member, same⟩ := List.any_eq_true.mp found
              exact met (List.mem_map.mpr ⟨other, member, by simpa using same⟩)
            rw [walkBack, if_neg unknown] at failed
            simp only [List.getElem?_eq_none beyond] at failed
            cases failed
            exact ⟨i, rfl, beyond, Or.inl ⟨_, List.mem_cons_self, rfl⟩⟩

/-! ### Targets -/

/-- What fails for want of the target's canonical text, and otherwise does not fail for texts that
read, fails exactly for texts that do not read. -/
theorem error_iff_unreadable {α : Type} {run : Except FormulaError α} {e : FormulaError}
    (total : Formula.Reads target → ∃ a, run = .ok a)
    (fails : ∀ why, Formula.canonical none target = .error why → run = .error why) :
    run = .error e ↔ Formula.parse none target = .error e := by
  cases parsed : Formula.parse none target with
  | ok u =>
    obtain ⟨a, answered⟩ := total ⟨u, parsed⟩
    simp [answered]
  | error why =>
    have unread : Formula.canonical none target = .error why := by
      simp [Formula.canonical, Formula.read, parsed, Except.map]
    simp [fails why unread]

namespace Readable

variable {e : FormulaError}

theorem run (readable : Readable s) (run : Run s t) : Readable t :=
  ⟨run.limit.trans readable.unlimited, run.reads readable.reads⟩

theorem proves?_error (readable : Readable s) :
    s.proves? target = .error e ↔ Formula.parse none target = .error e := by
  refine error_iff_unreadable (fun reads => ?_) fun why unread => ?_
  · exact proves?_total readable.unlimited reads readable.reads
  · unfold proves?
    rw [readable.unlimited, unread]
    rfl

theorem search_error (readable : Readable s) (limits : Limits) :
    s.search target limits = .error e ↔ Formula.parse none target = .error e := by
  refine error_iff_unreadable (fun reads => readable.search_total reads limits) fun why unread => ?_
  unfold search settled? proves?
  rw [readable.unlimited, unread]
  rfl

theorem proofStep?_error (readable : Readable s) :
    s.proofStep? target = .error e ↔ Formula.parse none target = .error e := by
  refine error_iff_unreadable (fun reads => ?_) fun why unread => ?_
  · exact proofStep?_total readable.unlimited reads readable.reads
  · unfold proofStep? stepsHolding
    rw [readable.unlimited, unread]
    rfl

end Readable

/-- What each error of an extraction says of the arena. -/
def Justifies (s : Derivation) (target : String) : ProofError → Prop
  | .formula e => s.proofStep? target = .error e
  | .noStep none => ∃ i x, s.Earliest target i x ∧ x.index = none
  | .noStep (some i) => s.steps.length ≤ i ∧
    ∃ x ∈ s.steps, x.index = some i ∨ Ref.step i ∈ x.antecedents

theorem extract_error {e : ProofError} (failed : s.extract target = .error e) :
    s.Justifies target e := by
  unfold extract at failed
  split at failed
  · rename_i why unread
    cases failed
    exact unread
  · cases failed
  · rename_i x found
    obtain ⟨j, earliest⟩ := proofStep?_some found
    split at failed
    · rename_i place
      cases failed
      exact ⟨j, x, earliest, place⟩
    · rename_i k place
      obtain ⟨i, rfl, beyond, sent⟩ := walkBack_error failed
      refine ⟨beyond, ?_⟩
      rcases sent with ⟨line, member, sent⟩ | ⟨y, inside, cited⟩
      · rw [List.mem_singleton.mp member] at sent
        cases sent
        exact ⟨x, List.mem_of_getElem? earliest.here, Or.inl place⟩
      · exact ⟨y, inside, Or.inr cited⟩

theorem Linked.extract_error {e : ProofError} (linked : s.Linked)
    (failed : s.extract target = .error e) : ∃ why, e = .formula why := by
  have justified := Derivation.extract_error failed
  cases e with
  | formula why => exact ⟨why, rfl⟩
  | noStep place =>
    cases place with
    | none =>
      obtain ⟨i, x, earliest, unnumbered⟩ := justified
      rw [linked.indexed i x earliest.here] at unnumbered
      cases unnumbered
    | some i =>
      obtain ⟨beyond, x, member, sent⟩ := justified
      have inside : i < s.steps.length := by
        rcases sent with place | cited
        · obtain ⟨k, here⟩ := List.mem_iff_getElem?.mp member
          have same := linked.indexed k x here
          rw [place] at same
          cases same
          exact (List.getElem?_eq_some_iff.mp here).1
        · exact linked.within x member i cited
      omega

theorem Readable.extract_error (readable : Readable s) {e : FormulaError} :
    s.extract target = .error (.formula e) ↔ Formula.parse none target = .error e := by
  rw [← readable.proofStep?_error]
  constructor
  · exact fun failed => Derivation.extract_error failed
  · intro unread
    rw [extract, unread]

/-- Rules never lead from formulas to a text that is none. Without a limit on nesting, in every state
that they lead to, whether a target is proved, can be found and can be extracted fails exactly if the
target does not read, with the error of reading it. A search fails in no other way, and an extraction
only where a step stands for, or cites, a place beyond the arena, or where the earliest step that holds
the target has no index. A linked arena excludes both. -/
theorem runs_fail_with_target (s : Derivation) (readable : ∀ f ∈ s.formulas, Formula.Reads f) :
    (∀ t, Run s t → ∀ f ∈ t.formulas, Formula.Reads f) ∧
    (s.limit = none → ∀ t, Run s t → ∀ target,
      (∀ limits e, t.search target limits = .error e ↔ Formula.parse none target = .error e) ∧
      (∀ e, t.proves? target = .error e ↔ Formula.parse none target = .error e) ∧
      (∀ e, t.extract target = .error (.formula e) ↔ Formula.parse none target = .error e) ∧
      (∀ i, t.extract target = .error (.noStep (some i)) → t.steps.length ≤ i ∧
        ∃ x ∈ t.steps, x.index = some i ∨ Ref.step i ∈ x.antecedents) ∧
      (t.extract target = .error (.noStep none) → ∃ i x, t.Earliest target i x ∧ x.index = none) ∧
      (s.Linked → ∀ place, t.extract target ≠ .error (.noStep place))) := by
  refine ⟨fun t run => run.reads readable, fun unlimited t run target => ?_⟩
  have reached : Readable t := Readable.run ⟨unlimited, readable⟩ run
  refine ⟨fun limits e => reached.search_error limits, fun e => reached.proves?_error,
    fun e => reached.extract_error, fun i failed => extract_error failed,
    fun failed => extract_error failed, fun linked place failed => ?_⟩
  obtain ⟨why, same⟩ := (run.linked linked).extract_error failed
  cases same

theorem runs_from_name_fail_with_target :
    (∀ f ∈ (ofName "p").formulas, Formula.Reads f) ∧ (ofName "p").limit = none ∧
    (ofName "p").Linked ∧ ∀ t, Run (ofName "p") t →
      (∃ e, t.extract "p ∧" = .error (.formula e)) ∧ ∃ lines, t.extract "(p ∧ p)" = .ok lines := by
  have readable := ofName_readable (show isIdentifier "p" = true by decide)
  refine ⟨readable, ofName_limit "p", ofName_linked "p", fun t run => ?_⟩
  have fails := (runs_fail_with_target (ofName "p") readable).2 (ofName_limit "p") t run
  constructor
  · cases unread : Formula.parse none "p ∧" with
    | ok u =>
      have refused : (Formula.parse none "p ∧").toOption = none := by cbv
      rw [unread] at refused
      cases refused
    | error e => exact ⟨e, ((fails "p ∧").2.2.1 e).mpr unread⟩
  · obtain ⟨u, read⟩ := conjunction_reads
    obtain ⟨-, -, unreadable, -, -, within⟩ := fails "(p ∧ p)"
    cases extracted : t.extract "(p ∧ p)" with
    | ok lines => exact ⟨lines, rfl⟩
    | error e =>
      cases e with
      | formula e =>
        have unread := (unreadable e).mp extracted
        rw [read] at unread
        cases unread
      | noStep i => exact absurd extracted (within (ofName_linked "p") i)

/-- One given formula, made from a step that is not there. -/
def dangling : Derivation :=
  ({ limit := none } : Derivation).push
    { provenance := "Given", antecedents := [.step 7], formulas := ["A"] }

theorem dangling_extraction_fails :
    dangling.limit = none ∧ (∀ f ∈ dangling.formulas, Formula.Reads f) ∧ Formula.Reads "A" ∧
      dangling.extract "A" = .error (.noStep (some 7)) := by
  have reads : Formula.Reads "A" :=
    ⟨.atom "A", Formula.parse_render (Formula.proper_atom.mpr (by decide))⟩
  refine ⟨rfl, fun f member => ?_, reads, by cbv⟩
  have same : f = "A" := by simpa [dangling, formulas] using member
  rw [same]
  exact reads

end Premise.Derivation
