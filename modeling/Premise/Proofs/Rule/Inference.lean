import Premise.Proofs.Except
import Premise.Rule

/-!
What inferences make. Each takes steps of one formula each, and the step it makes depends on the
inputs through their formulas and references alone. Main statements: `derive_ok_iff`,
`conclude_ok` and `apply_derives`, by which every rule under every subtype is an inference.
-/
namespace Premise

/-- The step that an inference makes of its inputs once the formula is found. -/
def Inference.stepOf (i : Inference) (inputs : List Step) (formula : String) : Step where
  provenance := i.provenance
  subtype := some i.subtype
  antecedents := inputs.filterMap Step.lineage?
  formulas := [formula]

@[simp] theorem Inference.stepOf_formulas (i : Inference) (inputs : List Step) (formula : String) :
    (i.stepOf inputs formula).formulas = [formula] := rfl

theorem Inference.stepOf_derived (i : Inference) (inputs : List Step) (formula : String) :
    (i.stepOf inputs formula).isProposition = false := by
  have derived : ∀ j : Inference, (j.provenance == "Proposition") = false := by
    rintro ((_ | _ | _ | _) | _ | _ | _) <;> decide
  exact derived i

theorem Step.only_ok_iff {s : Step} {f : String} : s.only = .ok f ↔ s.formulas = [f] := by
  unfold Step.only
  constructor
  · intro h
    split at h
    · rename_i g same; cases h; exact same
    · cases h
  · intro h
    rw [h]

theorem mapM_only_ok_iff {inputs : List Step} {fs : List String} :
    inputs.mapM Step.only = .ok fs ↔ inputs.map (·.formulas) = fs.map ([·]) := by
  induction inputs generalizing fs with
  | nil =>
    cases fs with
    | nil => simp [pure, Except.pure]
    | cons f fs => simp [pure, Except.pure]
  | cons s inputs ih =>
    rw [List.mapM_cons]
    simp only [bind_eq_ok, Step.only_ok_iff, ih, pure, Except.pure, Except.ok.injEq]
    constructor
    · rintro ⟨f, first, fs, rest, rfl⟩
      simp [first, rest]
    · intro same
      cases fs with
      | nil => cases same
      | cons f fs =>
        obtain ⟨first, rest⟩ := List.cons.inj same
        exact ⟨f, first, fs, rest, rfl⟩

namespace Inference

variable {limit : Option Nat} {i : Inference} {inputs : List Step} {step : Step}

theorem make_ok_iff {fs : List String} : i.make limit inputs fs = .ok step ↔
    ∃ f, i.conclude limit fs = .ok f ∧ step = i.stepOf inputs f := by
  unfold make
  rw [bind_eq_ok]
  simp [pure, Except.pure, stepOf, eq_comm]

theorem derive_ok_iff : i.derive limit inputs = .ok step ↔
    ∃ fs f, inputs.map (·.formulas) = fs.map ([·]) ∧ i.conclude limit fs = .ok f ∧
      step = i.stepOf inputs f := by
  unfold derive
  rw [bind_eq_ok]
  constructor
  · rintro ⟨fs, read, made⟩
    obtain ⟨f, found, rfl⟩ := make_ok_iff.mp made
    exact ⟨fs, f, mapM_only_ok_iff.mp read, found, rfl⟩
  · rintro ⟨fs, f, same, found, rfl⟩
    exact ⟨fs, mapM_only_ok_iff.mpr same, make_ok_iff.mpr ⟨f, found, rfl⟩⟩

theorem exists_input {fs : List String} {g : String}
    (same : inputs.map (·.formulas) = fs.map ([·])) (member : g ∈ fs) :
    ∃ x ∈ inputs, x.formulas = [g] := by
  have single : [g] ∈ inputs.map (·.formulas) := by
    rw [same]
    exact List.mem_map_of_mem member
  exact List.mem_map.mp single

theorem contrapositive_ok_iff {text f : String} : contrapositive limit text = .ok f ↔
    ∃ a c, Formula.read limit text = .ok (.binary .implies a c) ∧
      f = (Formula.binary .implies (.neg c) (.neg a)).render := by
  unfold contrapositive
  cases Formula.read limit text with
  | error e => simp
  | ok t =>
    cases t with
    | binary op a c =>
      cases op with
      | implies =>
        constructor
        · rintro ⟨⟩
          exact ⟨a, c, rfl, rfl⟩
        · rintro ⟨_, _, ⟨⟩, rfl⟩
          rfl
      | _ => simp
    | _ => simp

theorem conclude_ok {fs : List String} {f : String} (h : i.conclude limit fs = .ok f) :
    (∃ op a b, i = compose op ∧ fs = [a, b] ∧ f = Formula.joinText op a b) ∨
    (∃ a, i = contrapose ∧ fs = [a] ∧ contrapositive limit a = .ok f) ∨
    (∃ a, i = introduce ∧ fs = [a] ∧ f = doubled a) ∨
    (∃ a, i = eliminate ∧ fs = [a] ∧ f = halved a) := by
  unfold conclude at h
  split at h
  · cases h; exact Or.inl ⟨_, _, _, rfl, rfl, rfl⟩
  · exact Or.inr (Or.inl ⟨_, rfl, rfl, h⟩)
  · cases h; exact Or.inr (Or.inr (Or.inl ⟨_, rfl, rfl, rfl⟩))
  · cases h; exact Or.inr (Or.inr (Or.inr ⟨_, rfl, rfl, rfl⟩))
  · cases h

theorem strip_doubled (text : String) :
    Formula.stripDoubleNegation (doubled text) = Formula.stripDoubleNegation text := by
  unfold doubled
  split
  · rfl
  · simp [Formula.stripDoubleNegation, Formula.stripChars]

theorem strip_halved (text : String) :
    Formula.stripDoubleNegation (halved text) = Formula.stripDoubleNegation text := by
  unfold halved
  split
  · rename_i rest chars
    simp [Formula.stripDoubleNegation, chars, Formula.stripChars]
  · rfl

theorem conclude_arity {fs : List String} {f : String} (h : i.conclude limit fs = .ok f) :
    fs.length = i.arity := by
  obtain ⟨_, _, _, rfl, rfl, _⟩ | ⟨_, rfl, rfl, _⟩ | ⟨_, rfl, rfl, _⟩ | ⟨_, rfl, rfl, _⟩ :=
    conclude_ok h <;> rfl

end Inference

/-- The rule that an inference is, and the subtype it goes by. -/
def Inference.origin : Inference → Rule × Value
  | compose .and => (.alpha, .str "and")
  | compose .implies => (.alpha, .str "implies")
  | compose .or => (.beta, .null)
  | compose .iff => (.equivalence, .null)
  | contrapose => (.contraposition, .null)
  | introduce => (.doubleNegation, .str "introduction")
  | eliminate => (.doubleNegation, .str "elimination")

theorem Inference.apply_origin {limit : Option Nat} {i : Inference} {inputs : List Step}
    (count : inputs.length = i.arity) :
    i.origin.1.apply limit inputs i.origin.2 = i.derive limit inputs := by
  have arity : i.origin.1.arity = i.arity := by
    obtain (_ | _ | _ | _) | _ | _ | _ := i <;> rfl
  rw [Rule.apply, if_pos (count.trans arity.symm)]
  obtain (_ | _ | _ | _) | _ | _ | _ := i <;> rfl

/-- An inference that has a conclusion is made by the rule that it is. -/
theorem Inference.apply_conclude {limit : Option Nat} {i : Inference} {inputs : List Step}
    {fs : List String} {f : String} (holds : inputs.map (·.formulas) = fs.map ([·]))
    (found : i.conclude limit fs = .ok f) :
    i.origin.1.apply limit inputs i.origin.2 = .ok (i.stepOf inputs f) := by
  have count := congrArg List.length holds
  simp only [List.length_map] at count
  rw [apply_origin (count.trans (conclude_arity found))]
  exact derive_ok_iff.mpr ⟨fs, f, holds, found, rfl⟩

theorem Rule.apply_ok_iff {limit : Option Nat} {r : Rule} {inputs : List Step} {subtype : Value}
    {step : Step} : r.apply limit inputs subtype = .ok step ↔ inputs.length = r.arity ∧
      ∃ i, r.inference (r.orDefault subtype) = .ok i ∧ i.derive limit inputs = .ok step := by
  have applied (subtype : Value) : r.applyAs limit inputs subtype = .ok step ↔
      ∃ i, r.inference subtype = .ok i ∧ i.derive limit inputs = .ok step := by
    unfold applyAs
    split
    · simp only [bind_eq_ok, Inference.derive]
      constructor
      · rintro ⟨fs, read, i, meant, made⟩
        exact ⟨i, meant, fs, read, made⟩
      · rintro ⟨i, meant, fs, read, made⟩
        exact ⟨fs, read, i, meant, made⟩
    · exact bind_eq_ok
  unfold apply
  by_cases count : inputs.length = r.arity
  · rw [if_pos count, applied]
    simp [count]
  · simp [count]

/-- Whatever a rule makes, under any subtype, an inference makes. -/
theorem Rule.apply_derives {limit : Option Nat} {r : Rule} {inputs : List Step} {subtype : Value}
    {step : Step} (h : r.apply limit inputs subtype = .ok step) :
    ∃ i : Inference, i.derive limit inputs = .ok step := by
  obtain ⟨-, i, -, derived⟩ := apply_ok_iff.mp h
  exact ⟨i, derived⟩

end Premise
