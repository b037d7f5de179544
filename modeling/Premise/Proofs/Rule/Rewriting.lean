import Premise.Proofs.Derivation.Knowledge
import Premise.Proofs.Formula.Cancellation
import Premise.Proofs.Rule.Meaning

/-!
The rules that take one formula rewrite it. Double negation works on the text alone and keeps how it
reads, whatever the signs at its front bind. Contraposition reads the text and keeps its truth, and
made twice it is undone up to double negations. Main statements: `double_negation_faithful` and
`contraposition_involutive`.
-/
namespace Premise

variable {limit : Option Nat} {x step : Step} {a f g : String} {l r t : Formula}

/-! ### Double negation -/

namespace Formula.ReadsLike

theorem signed (limit : Option Nat) (a : String) : ReadsLike limit (Inference.doubled a) a := by
  rcases Inference.doubled_cases a with same | more
  · rw [same]
    exact refl limit a
  · rw [more]
    exact doubled limit a

theorem unsigned (limit : Option Nat) (a : String) : ReadsLike limit (Inference.halved a) a := by
  rcases Inference.halved_cases a with same | more
  · rw [same]
    exact refl limit a
  · have fewer := (doubled limit (Inference.halved a)).symm
    rwa [← more] at fewer

end Formula.ReadsLike

/-- Both modes of the rule apply to every step of one formula. -/
theorem Rule.doubleNegation_apply (limit : Option Nat) (holds : x.formulas = [a]) :
    ∀ mode ∈ doubleNegation.subtypes, ∃ step g,
      doubleNegation.apply limit [x] (.str mode) = .ok step ∧ step.formulas = [g] ∧
        Formula.ReadsLike limit g a := by
  have single : [x].map (·.formulas) = [a].map ([·]) := by simp [holds]
  have introduced : doubleNegation.apply limit [x] (.str "introduction") =
      .ok (Inference.introduce.stepOf [x] (Inference.doubled a)) :=
    Inference.apply_conclude (i := .introduce) single rfl
  have eliminated : doubleNegation.apply limit [x] (.str "elimination") =
      .ok (Inference.eliminate.stepOf [x] (Inference.halved a)) :=
    Inference.apply_conclude (i := .eliminate) single rfl
  intro mode listed
  rcases List.mem_cons.mp listed with rfl | listed
  · exact ⟨_, _, introduced, rfl, .signed limit a⟩
  · cases List.mem_singleton.mp listed
    exact ⟨_, _, eliminated, rfl, .unsigned limit a⟩

/-- A text reads under a limit exactly if it does with a pair of negation signs in front, and exactly
if it does without all such pairs, and the canonical text stays what it is; this holds of what the
double negation rule makes of it too. -/
theorem double_negation_faithful (limit : Option Nat) (text : String) :
    Formula.ReadsLike limit ("~~" ++ text) text ∧
    Formula.ReadsLike limit (Formula.stripDoubleNegation text) text ∧
    ∀ (s : Derivation) (x : Step), s.limit = limit → x.formulas = [text] →
      ∀ mode ∈ Rule.doubleNegation.subtypes, ∃ step g,
        Rule.doubleNegation.apply s.limit [x] (.str mode) = .ok step ∧ step.formulas = [g] ∧
          (s.push step).formulas = s.formulas ++ [g] ∧ Formula.ReadsLike limit g text := by
  refine ⟨.doubled limit text, .stripped limit text, ?_⟩
  rintro s x rfl holds mode listed
  obtain ⟨step, g, applied, made, like⟩ := Rule.doubleNegation_apply s.limit holds mode listed
  refine ⟨step, g, applied, made, ?_, like⟩
  rw [Derivation.push_formulas, made]

/-! ### Contraposition -/

theorem Rule.contraposition_ok_iff {subtype : Value} (holds : x.formulas = [f]) :
    contraposition.apply limit [x] subtype = .ok step ↔
      ∃ g, Inference.contrapositive limit f = .ok g ∧ step = Inference.contrapose.stepOf [x] g := by
  rw [apply_ok_iff]
  constructor
  · rintro ⟨-, i, meant, derived⟩
    cases meant
    obtain ⟨fs, g, same, found, rfl⟩ := Inference.derive_ok_iff.mp derived
    rw [List.map_singleton, holds] at same
    obtain ⟨h, rfl, single⟩ := List.map_eq_singleton_iff.mp same.symm
    cases single
    exact ⟨g, found, rfl⟩
  · rintro ⟨g, found, rfl⟩
    exact ⟨rfl, .contrapose, rfl,
      Inference.derive_ok_iff.mpr ⟨[f], g, by simp [holds], found, rfl⟩⟩

theorem Rule.contraposition_succeeds_iff {subtype : Value} (holds : x.formulas = [f])
    (read : Formula.read limit f = .ok t) :
    (∃ step, contraposition.apply limit [x] subtype = .ok step) ↔
      ∃ l r, t = .binary .implies l r := by
  simp only [contraposition_ok_iff holds, Inference.contrapositive_ok_iff, read, Except.ok.injEq]
  constructor
  · rintro ⟨-, -, ⟨l, r, implies, -⟩, -⟩
    exact ⟨l, r, implies⟩
  · rintro ⟨l, r, implies⟩
    exact ⟨_, _, ⟨l, r, implies, rfl⟩, rfl⟩

namespace Formula

/-- Contraposed twice, with what stands under the new negations normalized in between, an implication
is what it was up to double negations. -/
theorem contraposed_twice (l r : Formula) :
    Cancels (binary .implies (neg (neg l).normalize) (neg (neg r).normalize))
      (binary .implies l r) := by
  have back (t : Formula) : Cancels (neg (neg t).normalize) t :=
    .trans (.neg (cancels_normalize (neg t)).symm) (.double t)
  exact .binary .implies (back l) (back r)

/-- Contraposition turns the sides around and nests neither of them deeper. -/
theorem nesting_contraposed (l r : Formula) :
    (binary .implies (neg r) (neg l)).nesting = (binary .implies l r).nesting := by
  simp only [nesting]
  rw [Nat.max_comm]

end Formula

theorem Inference.contrapositive_back (proper : (Formula.binary .implies l r).Proper)
    (room : ∀ n ∈ limit, 2 * (Formula.binary .implies l r).nesting ≤ n) :
    Formula.parse limit (Formula.binary .implies (.neg r) (.neg l)).render =
      .ok (.binary .implies (.neg r) (.neg l)) ∧
    ∃ h, contrapositive limit (Formula.binary .implies (.neg r) (.neg l)).render = .ok h ∧
      Formula.canonical limit h = .ok (Formula.binary .implies l r).normalize.render := by
  obtain ⟨left, right⟩ := Formula.proper_binary.mp proper
  have once : (Formula.binary .implies (.neg r) (.neg l)).Proper :=
    Formula.proper_binary.mpr ⟨right, left⟩
  have fits := Formula.height_within (Formula.nesting_contraposed l r) room
  refine ⟨Formula.parse_render_within once fits, _,
    contrapositive_ok_iff.mpr ⟨_, _, Formula.read_render_within once fits, rfl⟩, ?_⟩
  have twice : (Formula.binary .implies (.neg (Formula.neg l).normalize)
      (.neg (Formula.neg r).normalize)).Proper :=
    Formula.proper_binary.mpr ⟨Formula.proper_normalize left, Formula.proper_normalize right⟩
  have nested : (Formula.binary .implies (.neg (Formula.neg l).normalize)
      (.neg (Formula.neg r).normalize)).nesting = (Formula.binary .implies l r).nesting := by
    simp only [Formula.nesting, Formula.nesting_normalize]
  rw [Formula.canonical, Formula.read_render_within twice (Formula.height_within nested room),
    (Formula.contraposed_twice l r).normalize_eq]
  rfl

/-- Contraposition succeeds exactly on what reads to an implication, double negations aside. Its
result reads and is true under the same assignments as the input, and contraposing the result gives
the canonical text of the input. The limit has to leave room for a parenthesis and a right side at
each level of the formula, as no limit always does: what is written without parentheses may nest
deeper when they are written. -/
theorem contraposition_involutive (s : Derivation) (x : Step) (f : String) (t : Formula)
    (subtype : Value) (holds : x.formulas = [f]) (parsed : Formula.parse s.limit f = .ok t)
    (room : ∀ n ∈ s.limit, 2 * t.nesting ≤ n) :
    ((∃ step, Rule.contraposition.apply s.limit [x] subtype = .ok step) ↔
      ∃ l r, t.normalize = .binary .implies l r) ∧
    ∀ step, Rule.contraposition.apply s.limit [x] subtype = .ok step →
      ∃ g u, step.formulas = [g] ∧ Formula.parse s.limit g = .ok u ∧
        (∀ v, u.holds v = t.holds v) ∧
        ∃ again h, Rule.contraposition.apply s.limit [s.number step] subtype = .ok again ∧
          again.formulas = [h] ∧
          ∃ c, Formula.canonical s.limit h = .ok c ∧ Formula.canonical s.limit f = .ok c := by
  have read : Formula.read s.limit f = .ok t.normalize := by
    refine Formula.read_ok_iff.mpr ⟨t, parsed, rfl, fun n bound => ?_⟩
    have enough := room n bound
    rw [Formula.nesting_normalize]
    omega
  refine ⟨Rule.contraposition_succeeds_iff holds read, fun step applied => ?_⟩
  obtain ⟨g, found, rfl⟩ := (Rule.contraposition_ok_iff holds).mp applied
  obtain ⟨l, r, read', rfl⟩ := Inference.contrapositive_ok_iff.mp found
  have implies : t.normalize = .binary .implies l r := Except.ok.inj (read.symm.trans read')
  have proper : (Formula.binary .implies l r).Proper := by
    rw [← implies]
    exact Formula.proper_normalize (Formula.proper_of_parse parsed)
  rw [← Formula.nesting_normalize, implies] at room
  obtain ⟨reads, h, again, means⟩ := Inference.contrapositive_back proper room
  refine ⟨_, _, rfl, reads, fun v => ?_, _, h, (Rule.contraposition_ok_iff rfl).mpr ⟨h, again, rfl⟩,
    rfl, _, means, ?_⟩
  · rw [Formula.holds_contrapositive, ← implies, Formula.holds_normalize]
  · rw [Formula.canonical, read, ← implies, Formula.normalize_normalize]
    rfl

theorem negated_antecedent_contraposed :
    Formula.parse ({} : Derivation).limit "~p -> ~~q" =
      .ok (.binary .implies (.neg (.atom "p")) (.neg (.neg (.atom "q")))) ∧
    ∃ step, Rule.contraposition.apply ({} : Derivation).limit [Step.proposition "~p -> ~~q"] .null =
      .ok step := by
  have parsed : Formula.parse ({} : Derivation).limit "~p -> ~~q" =
      .ok (.binary .implies (.neg (.atom "p")) (.neg (.neg (.atom "q")))) := by cbv
  have room : ∀ n ∈ ({} : Derivation).limit,
      2 * (Formula.binary .implies (.neg (.atom "p")) (.neg (.neg (.atom "q")))).nesting ≤ n := by
    intro n bound
    cases bound
    decide
  obtain ⟨succeeds, -⟩ := contraposition_involutive {} (Step.proposition "~p -> ~~q") _ _ .null rfl
    parsed room
  exact ⟨parsed, succeeds.mpr ⟨.neg (.atom "p"), .atom "q", by decide⟩⟩

end Premise
