import Premise.Proofs.Derivation.Knowledge
import Premise.Proofs.Rule.Inference
import Premise.Search

/-!
One round of a search. A successor differs from its parent in one step, and in what it knows by that
step's formula alone, so that the rounds of a search are counted by what it has learned. Main
statements: `mem_expand_iff`, which says all that a round can do, and `expansion_learns_one`.
-/
namespace Premise

/-- The text has a parenthesis at its front. -/
def Bracketed (text : String) : Prop :=
  ∃ rest, text.toList = '(' :: rest

theorem Bracketed.joined (op : Connective) (a b : String) : Bracketed (Formula.joinText op a b) :=
  ⟨_, Formula.joinText_toList op a b⟩

theorem Bracketed.strip {text : String} (h : Bracketed text) :
    Formula.stripDoubleNegation text = text := by
  obtain ⟨rest, chars⟩ := h
  exact Formula.strip_unpaired fun more signs => by simp [chars] at signs

namespace Derivation

variable {s t u : Derivation} {maxSteps : Int}

/-! ### What can be made -/

/-- An inference makes the formula of steps in the arena. -/
def Makes (s : Derivation) (i : Inference) (inputs : List Step) (f : String) : Prop :=
  ∃ fs, (∀ x ∈ inputs, x ∈ s.steps) ∧ inputs.map (·.formulas) = fs.map ([·]) ∧
    i.conclude s.limit fs = .ok f

theorem makes_inputs {i : Inference} {inputs : List Step} {f : String}
    (h : s.Makes i inputs f) : inputs.length = i.arity := by
  obtain ⟨fs, -, same, found⟩ := h
  have count := congrArg List.length same
  simp only [List.length_map] at count
  rw [count, Inference.conclude_arity found]

theorem makes_applies {i : Inference} {inputs : List Step} {f : String}
    (h : s.Makes i inputs f) :
    i.origin.1.apply s.limit inputs i.origin.2 = .ok (i.stepOf inputs f) := by
  obtain ⟨fs, -, same, found⟩ := h
  exact Inference.apply_conclude same found

theorem successor?_eq_some {inputs : List Step} {i : Inference} {known : List String} :
    s.successor? known inputs i = some u ↔ ∃ fs f, inputs.map (·.formulas) = fs.map ([·]) ∧
      i.conclude s.limit fs = .ok f ∧ Formula.stripDoubleNegation f ∉ known ∧
      u = s.push (i.stepOf inputs f) := by
  unfold successor?
  constructor
  · intro h
    split at h
    · cases h
    · rename_i step derived
      obtain ⟨fs, f, same, found, rfl⟩ := Inference.derive_ok_iff.mp derived
      split at h
      · rename_i new
        cases h
        refine ⟨fs, f, same, found, ?_, rfl⟩
        simpa using new
      · cases h
  · rintro ⟨fs, f, same, found, new, rfl⟩
    rw [Inference.derive_ok_iff.mpr ⟨fs, f, same, found, rfl⟩]
    simp [new]

/-- Only the formulas of the steps matter to what can be made. -/
theorem exists_makes_iff {i : Inference} {f : String} : (∃ inputs, s.Makes i inputs f) ↔
    ∃ fs, (∀ g ∈ fs, [g] ∈ s.steps.map (·.formulas)) ∧ i.conclude s.limit fs = .ok f := by
  constructor
  · rintro ⟨inputs, fs, within, same, found⟩
    refine ⟨fs, fun g member => ?_, found⟩
    obtain ⟨x, input, holds⟩ := Inference.exists_input same member
    exact List.mem_map.mpr ⟨x, within x input, holds⟩
  · rintro ⟨fs, held, found⟩
    suffices chosen : ∃ inputs : List Step,
        (∀ x ∈ inputs, x ∈ s.steps) ∧ inputs.map (·.formulas) = fs.map ([·]) by
      obtain ⟨inputs, within, same⟩ := chosen
      exact ⟨inputs, fs, within, same, found⟩
    clear found
    induction fs with
    | nil => exact ⟨[], by simp⟩
    | cons g fs ih =>
      obtain ⟨first, rest⟩ := List.forall_mem_cons.mp held
      obtain ⟨x, member, holds⟩ := List.mem_map.mp first
      obtain ⟨inputs, within, same⟩ := ih rest
      exact ⟨x :: inputs, List.forall_mem_cons.mpr ⟨member, within⟩, by simp [holds, same]⟩

theorem mem_formulas_of_held {g : String} (held : [g] ∈ s.steps.map (·.formulas)) :
    g ∈ s.formulas := by
  obtain ⟨x, member, holds⟩ := List.mem_map.mp held
  exact List.mem_append_right _ (List.mem_flatMap.mpr ⟨x, member, by simp [holds]⟩)

/-! ### Offers -/

/-- An ordered pair of steps, which may be one step twice, offers its four compositions, and a step
that reads to an implication offers its contrapositive. -/
inductive Offers (s : Derivation) : Step → String → Prop where
  | compose (op : Connective) {x y : Step} {a b : String} :
      x ∈ s.steps → y ∈ s.steps → x.formulas = [a] → y.formulas = [b] →
      Offers s ((Inference.compose op).stepOf [x, y] (Formula.joinText op a b))
        (Formula.joinText op a b)
  | contrapose {x : Step} {a : String} {l r : Formula} :
      x ∈ s.steps → x.formulas = [a] → Formula.read s.limit a = .ok (.binary .implies l r) →
      Offers s (Inference.contrapose.stepOf [x] (Formula.binary .implies (.neg r) (.neg l)).render)
        (Formula.binary .implies (.neg r) (.neg l)).render

namespace Offers

variable {step : Step} {f : String}

theorem holds (offers : s.Offers step f) : step.formulas = [f] := by
  cases offers <;> rfl

theorem bracketed (offers : s.Offers step f) : Bracketed f := by
  cases offers with
  | compose op => exact .joined op _ _
  | contrapose => exact .joined .implies _ _

theorem provenance (offers : s.Offers step f) : step.provenance ≠ "DoubleNegationRule" := by
  cases offers with
  | compose op =>
    show (Inference.compose op).provenance ≠ "DoubleNegationRule"
    cases op <;> decide
  | contrapose =>
    show Inference.contrapose.provenance ≠ "DoubleNegationRule"
    decide

theorem makes (offers : s.Offers step f) :
    ∃ i inputs, s.Makes i inputs f ∧ step = i.stepOf inputs f := by
  cases offers with
  | @compose op x y a b first second holds holds' =>
    refine ⟨.compose op, [x, y], ⟨[a, b], ?_, by simp [holds, holds'], rfl⟩, rfl⟩
    simp [first, second]
  | @contrapose x a l r member holds read =>
    have contraposed := Inference.contrapositive_ok_iff.mpr ⟨l, r, read, rfl⟩
    exact ⟨.contrapose, [x], ⟨[a], by simp [member], by simp [holds], contraposed⟩, rfl⟩

end Offers

/-- What is made and not known is an offer: to introduce or eliminate a double negation makes nothing
new. -/
theorem Makes.offers {i : Inference} {inputs : List Step} {f : String} (makes : s.Makes i inputs f)
    (new : Formula.stripDoubleNegation f ∉ s.known) : s.Offers (i.stepOf inputs f) f := by
  obtain ⟨fs, within, same, found⟩ := makes
  have known {a : String} (single : fs = [a]) : Formula.stripDoubleNegation a ∈ s.known := by
    obtain ⟨x, input, holds⟩ := Inference.exists_input same (g := a) (by simp [single])
    have held : [a] ∈ s.steps.map (·.formulas) := List.mem_map.mpr ⟨x, within x input, holds⟩
    exact mem_known.mpr ⟨a, mem_formulas_of_held held, rfl⟩
  rcases Inference.conclude_ok found with ⟨op, a, b, rfl, rfl, rfl⟩ | ⟨a, rfl, rfl, contraposed⟩ |
    ⟨a, -, single, rfl⟩ | ⟨a, -, single, rfl⟩
  · obtain ⟨x, rest, rfl, holds, last⟩ := List.map_eq_cons_iff.mp same
    obtain ⟨y, rest, rfl, holds', none⟩ := List.map_eq_cons_iff.mp last
    obtain rfl := List.map_eq_nil_iff.mp none
    exact .compose op (within x (by simp)) (within y (by simp)) holds holds'
  · obtain ⟨x, rest, rfl, holds, none⟩ := List.map_eq_cons_iff.mp same
    obtain rfl := List.map_eq_nil_iff.mp none
    obtain ⟨l, r, read, rfl⟩ := Inference.contrapositive_ok_iff.mp contraposed
    exact .contrapose (within x (by simp)) holds read
  · rw [Inference.strip_doubled] at new
    exact absurd (known single) new
  · rw [Inference.strip_halved] at new
    exact absurd (known single) new

theorem makes_bracketed {i : Inference} {inputs : List Step} {f : String}
    (makes : s.Makes i inputs f) (new : Formula.stripDoubleNegation f ∉ s.known) : Bracketed f :=
  (makes.offers new).bracketed

/-- What is made and not known is composed or contraposed. -/
theorem makes_new {i : Inference} {inputs : List Step} {f : String} (makes : s.Makes i inputs f)
    (new : Formula.stripDoubleNegation f ∉ s.known) :
    (∃ op a b, [a] ∈ s.steps.map (·.formulas) ∧ [b] ∈ s.steps.map (·.formulas) ∧
      f = Formula.joinText op a b) ∨
    ∃ a, [a] ∈ s.steps.map (·.formulas) ∧ Inference.contrapositive s.limit a = .ok f := by
  have held {x : Step} {a : String} (member : x ∈ s.steps) (single : x.formulas = [a]) :
      [a] ∈ s.steps.map (·.formulas) := List.mem_map.mpr ⟨x, member, single⟩
  have offers := makes.offers new
  generalize i.stepOf inputs f = step at offers
  cases offers with
  | compose op first second holds holds' =>
    exact Or.inl ⟨op, _, _, held first holds, held second holds', rfl⟩
  | @contrapose x a l r member holds read =>
    exact Or.inr ⟨a, held member holds, Inference.contrapositive_ok_iff.mpr ⟨l, r, read, rfl⟩⟩

/-! ### Successors -/

/-- The successors of a derivation that is not full: any inference on any of its steps, if what it
makes is not known up to leading double negations. -/
theorem mem_expand_iff : u ∈ s.expand maxSteps ↔ (s.steps.length : Int) < maxSteps ∧
    ∃ i inputs f, s.Makes i inputs f ∧ Formula.stripDoubleNegation f ∉ s.known ∧
      u = s.push (i.stepOf inputs f) := by
  unfold expand
  split
  · rename_i full
    simp only [List.not_mem_nil, false_iff]
    rintro ⟨room, -⟩
    omega
  · rename_i room
    simp only [List.mem_append, List.mem_flatMap, List.mem_filterMap, successor?_eq_some]
    constructor
    · rintro (⟨a, member, b, member', i, -, fs, f, same, found, new, rfl⟩ |
        ⟨a, member, i, -, fs, f, same, found, new, rfl⟩)
      · exact ⟨by omega, i, [a, b], f, ⟨fs, by simp [member, member'], same, found⟩, new, rfl⟩
      · exact ⟨by omega, i, [a], f, ⟨fs, by simp [member], same, found⟩, new, rfl⟩
    · rintro ⟨-, i, inputs, f, makes, new, rfl⟩
      have count := makes_inputs makes
      obtain ⟨fs, within, same, found⟩ := makes
      cases i with
      | compose op =>
        left
        obtain ⟨a, b, rfl⟩ : ∃ a b, inputs = [a, b] := by
          match inputs, count with
          | [a, b], _ => exact ⟨a, b, rfl⟩
        exact ⟨a, within a (by simp), b, within b (by simp), .compose op,
          by cases op <;> simp [pairInferences], fs, f, same, found, new, rfl⟩
      | contrapose | introduce | eliminate =>
        right
        obtain ⟨a, rfl⟩ := List.length_eq_one_iff.mp count
        exact ⟨a, within a (by simp), _, by simp [soleInferences], fs, f, same, found, new, rfl⟩

/-- A successor has one step more than its parent and nothing else, the step is an offer and made by
no double negation, and what it learned is the one formula of that step, as written and in
parentheses. Where the parent is not full, each of its offers that is not known up to leading double
negations has its successor. -/
theorem expansion_learns_one (s : Derivation) (maxSteps : Int) :
    (∀ u ∈ s.expand maxSteps, ∃ step f, s.Offers step f ∧ u = s.push step ∧ step.formulas = [f] ∧
      Bracketed f ∧ step.provenance ≠ "DoubleNegationRule" ∧ f ∉ s.known ∧
      u.known = s.known ++ [f]) ∧
    ((s.steps.length : Int) < maxSteps → ∀ step f, s.Offers step f →
      Formula.stripDoubleNegation f ∉ s.known → s.push step ∈ s.expand maxSteps) := by
  constructor
  · intro u member
    obtain ⟨-, i, inputs, f, makes, new, rfl⟩ := mem_expand_iff.mp member
    have offers := makes.offers new
    have learned := push_known offers.holds new
    rw [offers.bracketed.strip] at new learned
    exact ⟨_, f, offers, rfl, offers.holds, offers.bracketed, offers.provenance, new, learned⟩
  · intro room step f offers new
    obtain ⟨i, inputs, makes, rfl⟩ := offers.makes
    exact mem_expand_iff.mpr ⟨room, i, inputs, f, makes, new, rfl⟩

end Derivation

end Premise
