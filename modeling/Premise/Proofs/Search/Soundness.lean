import Premise.Proofs.Rule.Truth
import Premise.Proofs.Search.Exploration

/-!
Soundness of rule applications, in whatever order they are made, and of searches, whose chains are
such runs.
-/
namespace Premise.Derivation

variable {s t : Derivation} {v : String → Bool} {target : String} {limits : Limits}

/-- A step of the arena, or one that refers to a known fact. -/
def Citable (s : Derivation) (x : Step) : Prop :=
  x ∈ s.steps ∨ ∃ f ∈ s.facts, x = Step.ofFact f

/-- Rules were applied one after the other, each to steps that could be cited. -/
inductive Run (s : Derivation) : Derivation → Prop where
  | start : Run s s
  | apply {t : Derivation} {inputs : List Step} {step : Step} (rule : Rule) (subtype : Value) :
      Run s t → (∀ x ∈ inputs, t.Citable x) → rule.apply t.limit inputs subtype = .ok step →
      Run s (t.push step)

theorem Chain.run {maxSteps : Int} {n : Nat} (chain : Chain maxSteps s n t) : Run s t := by
  induction chain with
  | start => exact .start
  | next _ member ih =>
    obtain ⟨-, i, inputs, f, makes, -, rfl⟩ := mem_expand_iff.mp member
    have applied := makes_applies makes
    obtain ⟨-, within, -⟩ := makes
    exact .apply i.origin.1 i.origin.2 ih (fun x input => Or.inl (within x input)) applied

theorem Citable.held {x : Step} {f : String} (citable : s.Citable x) (holds : f ∈ x.formulas) :
    f ∈ s.formulas := by
  rcases citable with member | ⟨g, fact, rfl⟩
  · exact List.mem_append_right _ (List.mem_flatMap.mpr ⟨x, member, holds⟩)
  · rw [List.mem_singleton.mp holds]
    exact List.mem_append_left _ fact

theorem applied_reads {rule : Rule} {subtype : Value} {inputs : List Step} {step : Step}
    (readable : ∀ f ∈ s.formulas, Formula.Reads f) (citable : ∀ x ∈ inputs, s.Citable x)
    (applied : rule.apply s.limit inputs subtype = .ok step) :
    ∀ f ∈ (s.push step).formulas, Formula.Reads f := by
  obtain ⟨i, derived⟩ := Rule.apply_derives applied
  obtain ⟨fs, f, same, concluded, rfl⟩ := Inference.derive_ok_iff.mp derived
  intro g member
  rw [push_formulas] at member
  rcases List.mem_append.mp member with old | fresh
  · exact readable g old
  · rw [List.mem_singleton.mp fresh]
    refine Inference.conclude_reads (fun h inside => ?_) concluded
    obtain ⟨x, input, holds⟩ := Inference.exists_input same inside
    exact readable h ((citable x input).held (by simp [holds]))

theorem Run.limit (run : Run s t) : t.limit = s.limit := by
  induction run with
  | start => rfl
  | apply _ _ _ _ _ ih => exact ih

/-- Rules lead from formulas to formulas, whatever the spelling. -/
theorem Run.reads (run : Run s t) (readable : ∀ f ∈ s.formulas, Formula.Reads f) :
    ∀ f ∈ t.formulas, Formula.Reads f := by
  induction run with
  | start => exact readable
  | apply _ _ _ citable applied ih => exact applied_reads ih citable applied

theorem Run.rendersTrue (run : Run s t) (premises : ∀ f ∈ s.formulas, Formula.RendersTrue v f) :
    ∀ f ∈ t.formulas, Formula.RendersTrue v f := by
  induction run with
  | start => exact premises
  | @apply t inputs step rule subtype _ citable applied ih =>
    obtain ⟨i, derived⟩ := Rule.apply_derives applied
    obtain ⟨fs, f, same, found, rfl⟩ := Inference.derive_ok_iff.mp derived
    have inputs_true : ∀ g ∈ fs, Formula.RendersTrue v g := by
      intro g member
      obtain ⟨x, input, holds⟩ := Inference.exists_input same member
      exact ih g ((citable x input).held (by simp [holds]))
    intro g member
    rw [push_formulas] at member
    rcases List.mem_append.mp member with old | fresh
    · exact ih g old
    · rw [List.mem_singleton.mp fresh]
      exact Inference.conclude_true inputs_true found

theorem proves?_true (held : ∀ f ∈ t.formulas, Formula.RendersTrue v f)
    (proves : t.proves? target = .ok true) : Formula.TextHolds v target := by
  obtain ⟨f, member, c, read, read'⟩ := exists_of_proves? proves
  have truth := (Formula.rendersTrue_iff.mp (held f (mem_formulas_of_established member))).2
  exact Formula.textHolds_of_canonical read read' truth

theorem search_run {r : SearchResult} (found : s.search target limits = .ok r)
    (proven : r.proven = true) : ∃ t, Run s t ∧ t.proves? target = .ok true := by
  obtain ⟨t, ends⟩ := Option.isSome_iff_exists.mp proven
  obtain ⟨chain, proves, -⟩ := search_proven found ends
  exact ⟨t, chain.run, proves⟩

/-- An assignment under which all that a derivation holds is true makes true whatever any run of
rule applications adds, and every target that a search reports as proven. -/
theorem runs_preserve_truth (s : Derivation) (v : String → Bool)
    (rendered : ∀ f ∈ s.formulas, Formula.IsRendering f)
    (premises : ∀ f ∈ s.formulas, Formula.TextHolds v f) :
    (∀ t, Run s t → ∀ f ∈ t.formulas, Formula.IsRendering f ∧ Formula.TextHolds v f) ∧
    ∀ target limits r, s.search target limits = .ok r → r.proven = true →
      Formula.TextHolds v target := by
  have initial : ∀ f ∈ s.formulas, Formula.RendersTrue v f := fun f member =>
    Formula.rendersTrue_iff.mpr ⟨rendered f member, premises f member⟩
  refine ⟨fun t run f member => ?_, fun target limits r found proven => ?_⟩
  · exact Formula.rendersTrue_iff.mp (run.rendersTrue initial f member)
  · obtain ⟨t, run, proves⟩ := search_run found proven
    exact proves?_true (run.rendersTrue initial) proves

theorem runs_from_name_true :
    Formula.TextHolds (· == "p") "p" ∧ ∀ t, Run (ofName "p") t →
      ∀ f ∈ t.formulas, Formula.IsRendering f ∧ Formula.TextHolds (· == "p") f := by
  have proper : (Formula.atom "p").Proper := Formula.proper_atom.mpr (by decide)
  have single : ∀ f ∈ (ofName "p").formulas, f = "p" := by simp [ofName_formulas]
  have rendered : ∀ f ∈ (ofName "p").formulas, Formula.IsRendering f := fun f member =>
    ⟨.atom "p", proper, single f member⟩
  have truth : Formula.TextHolds (· == "p") "p" :=
    (Formula.textHolds_render proper).mpr (by decide)
  have premises : ∀ f ∈ (ofName "p").formulas, Formula.TextHolds (· == "p") f := by
    intro f member
    rw [single f member]
    exact truth
  exact ⟨truth, (runs_preserve_truth (ofName "p") (· == "p") rendered premises).1⟩

end Premise.Derivation
