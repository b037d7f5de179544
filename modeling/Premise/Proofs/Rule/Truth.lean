import Premise.Proofs.Formula.Truth
import Premise.Proofs.Rule.Inference

/-!
Inferences keep the truth. Each works on texts, two of them without reading any, and still takes
renderings of true formulas to the rendering of a true formula. Main statement: `conclude_true`.
-/
namespace Premise

variable {v : String → Bool} {text f : String}

namespace Formula

/-- The text renders a formula that is true. -/
def RendersTrue (v : String → Bool) (text : String) : Prop :=
  ∃ t : Formula, t.Proper ∧ text = t.render ∧ t.holds v = true

theorem rendersTrue_iff : RendersTrue v text ↔ IsRendering text ∧ TextHolds v text := by
  constructor
  · rintro ⟨t, proper, rfl, truth⟩
    exact ⟨⟨t, proper, rfl⟩, (textHolds_render proper).mpr truth⟩
  · rintro ⟨⟨t, proper, rfl⟩, truth⟩
    exact ⟨t, proper, rfl, (textHolds_render proper).mp truth⟩

/-- Only a negation is rendered with a negation sign in front. -/
theorem eq_neg_of_render {t : Formula} {rest : List Char} (proper : t.Proper)
    (front : t.render.toList = '~' :: rest) : ∃ u, t = neg u ∧ u.render.toList = rest := by
  cases t with
  | atom name =>
    have named := proper_atom.mp proper
    rw [render] at front
    rw [isIdentifier, front] at named
    simp [isLetter] at named
  | neg u =>
    rw [render, String.toList_append] at front
    exact ⟨u, rfl, (List.cons.inj front).2⟩
  | binary op l r =>
    rw [render, joinText_toList] at front
    cases (List.cons.inj front).1

end Formula

open Formula (RendersTrue)

namespace Inference

theorem doubled_true (h : RendersTrue v text) : RendersTrue v (doubled text) := by
  unfold doubled
  split
  · exact h
  · obtain ⟨t, proper, rfl, truth⟩ := h
    refine ⟨.neg (.neg t), proper, ?_, by simp [Formula.holds, truth]⟩
    rw [Formula.render, Formula.render, ← String.append_assoc]
    rfl

theorem halved_true (h : RendersTrue v text) : RendersTrue v (halved text) := by
  unfold halved
  split
  · rename_i rest chars
    obtain ⟨t, proper, rfl, truth⟩ := h
    obtain ⟨u, rfl, inner⟩ := Formula.eq_neg_of_render proper chars
    obtain ⟨w, rfl, rfl⟩ := Formula.eq_neg_of_render (Formula.proper_neg.mp proper) inner
    exact ⟨w, proper, String.ofList_toList, by simpa [Formula.holds] using truth⟩
  · exact h

theorem contrapositive_true {limit : Option Nat} (h : RendersTrue v text)
    (found : contrapositive limit text = .ok f) : RendersTrue v f := by
  obtain ⟨t, proper, rfl, truth⟩ := h
  obtain ⟨a, c, read, rfl⟩ := contrapositive_ok_iff.mp found
  obtain ⟨t', parsed, same⟩ := Formula.read_ok read
  -- A rendering reads back under any limit, if it reads at all.
  have tree : t = t' := by
    have again := Formula.parse_none parsed
    rw [Formula.parse_render proper] at again
    exact Except.ok.inj again
  subst tree
  have proper' := Formula.proper_normalize proper
  rw [← same, Formula.proper_binary] at proper'
  refine ⟨.binary .implies (.neg c) (.neg a), ?_, rfl, ?_⟩
  · exact Formula.proper_binary.mpr ⟨Formula.proper_neg.mpr proper'.2,
      Formula.proper_neg.mpr proper'.1⟩
  · rw [Formula.holds_contrapositive, same, Formula.holds_normalize, truth]

/-- What an inference makes of true formulas is true. -/
theorem conclude_true {limit : Option Nat} {i : Inference} {fs : List String}
    (premises : ∀ g ∈ fs, RendersTrue v g) (found : i.conclude limit fs = .ok f) :
    RendersTrue v f := by
  rcases conclude_ok found with ⟨op, a, b, -, rfl, rfl⟩ | ⟨a, -, rfl, contraposed⟩ |
    ⟨a, -, rfl, rfl⟩ | ⟨a, -, rfl, rfl⟩
  · obtain ⟨l, proper, rfl, truth⟩ := premises a (by simp)
    obtain ⟨r, proper', rfl, truth'⟩ := premises b (by simp)
    exact ⟨.binary op l r, Formula.proper_binary.mpr ⟨proper, proper'⟩, rfl,
      Formula.holds_binary op truth truth'⟩
  · exact contrapositive_true (premises a (by simp)) contraposed
  · exact doubled_true (premises a (by simp))
  · exact halved_true (premises a (by simp))

end Inference

end Premise
