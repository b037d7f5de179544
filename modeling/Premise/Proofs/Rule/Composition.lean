import Premise.Proofs.Derivation.Knowledge
import Premise.Proofs.Formula.Regrouping
import Premise.Proofs.Rule.Inference

/-!
Composing texts. The rules that join two formulas put their texts side by side without reading them.
Main statement: `composition_groups_iff`, that the joined text means the joined formulas exactly
where both texts may stand beside the connective as they are.
-/
namespace Premise

namespace Formula

/-- The text groups together on the left of the connective, as it is written. -/
def FitsLeft (op : Connective) (text : String) : Prop :=
  ∃ ws t, Spells text.toList ws ∧ Derives op.leftSide ws t

/-- The text groups together on the right of the connective, as it is written. -/
def FitsRight (op : Connective) (text : String) : Prop :=
  ∃ ws t, Spells text.toList ws ∧ Derives op.rightSide ws t

section
variable {op : Connective} {a b text : String} {ws : List Word} {l r t : Formula}

theorem fitsLeft_iff (spelled : Spells text.toList ws) (derived : Derives .equivalence ws t) :
    FitsLeft op text ↔ Derives op.leftSide ws t := by
  constructor
  · rintro ⟨us, u, spelled', fits⟩
    have words := spelled.unique spelled'
    subst words
    rwa [derived.unique fits.loosen]
  · exact fun fits => ⟨ws, t, spelled, fits⟩

theorem fitsRight_iff (spelled : Spells text.toList ws) (derived : Derives .equivalence ws t) :
    FitsRight op text ↔ Derives op.rightSide ws t := by
  constructor
  · rintro ⟨us, u, spelled', fits⟩
    have words := spelled.unique spelled'
    subst words
    rwa [derived.unique fits.loosen]
  · exact fun fits => ⟨ws, t, spelled, fits⟩

/-- A rendering stands in parentheses, if need be, and so it fits on either side. -/
theorem render_fits (proper : t.Proper) : FitsLeft op t.render ∧ FitsRight op t.render := by
  have spelled := render_spells proper
  have derived := words_derives t
  have conjunction := Derives.negation derived
  have disjunction := Derives.conjunction conjunction
  have implication := Derives.disjunction disjunction
  constructor
  · refine ⟨t.words, t, spelled, ?_⟩
    cases op with
    | and => exact conjunction
    | or | implies => exact disjunction
    | iff => exact .implication implication
  · refine ⟨t.words, t, spelled, ?_⟩
    cases op with
    | and => exact derived
    | or => exact conjunction
    | implies | iff => exact implication

/-- How a joined text reads, whatever it groups to. -/
theorem joinText_derives (op : Connective) (left : parse none a = .ok l)
    (right : parse none b = .ok r) : ∃ ws us t, Spells a.toList ws ∧ Derives .equivalence ws l ∧
      Spells b.toList us ∧ Derives .equivalence us r ∧ parse none (joinText op a b) = .ok t ∧
      Derives .equivalence (ws ++ .operator (.connective op) :: us) t := by
  obtain ⟨ws, spelled, derived⟩ := parse_ok_iff.mp left
  obtain ⟨us, spelled', derived'⟩ := parse_ok_iff.mp right
  obtain ⟨t, joined⟩ := (derived.phrase.1.append op derived'.phrase.1).derives
  have read := parse_ok_iff.mpr
    ⟨_, joinText_spells op spelled spelled', (Derives.parenthesized joined).of_primary⟩
  exact ⟨ws, us, t, spelled, derived, spelled', derived', read, joined⟩

theorem parse_joinText_iff (left : parse none a = .ok l) (right : parse none b = .ok r) :
    parse none (joinText op a b) = .ok (.binary op l r) ↔ FitsLeft op a ∧ FitsRight op b := by
  obtain ⟨ws, us, t, spelled, derived, spelled', derived', read, whole⟩ :=
    joinText_derives op left right
  rw [read, fitsLeft_iff spelled derived, fitsRight_iff spelled' derived',
    ← joined_eq_iff derived derived' whole, Except.ok.injEq]

theorem canonical_joinText_iff (left : parse none a = .ok l) (right : parse none b = .ok r) :
    canonical none (joinText op a b) = .ok (joinText op l.normalize.render r.normalize.render) ↔
      FitsLeft op a ∧ FitsRight op b := by
  obtain ⟨ws, us, t, spelled, derived, spelled', derived', read, whole⟩ :=
    joinText_derives op left right
  have proper := proper_normalize (proper_of_parse read)
  have proper' : (binary op l r).normalize.Proper :=
    proper_normalize (proper_binary.mpr ⟨proper_of_parse left, proper_of_parse right⟩)
  have same : canonical none (joinText op a b) =
      .ok (joinText op l.normalize.render r.normalize.render) ↔
      t.normalize = (binary op l r).normalize := by
    rw [canonical_of_parse read, Except.ok.injEq]
    constructor
    · exact fun texts => render_injective proper proper' texts
    · exact fun trees => by rw [trees]; rfl
  rw [same, fitsLeft_iff spelled derived, fitsRight_iff spelled' derived',
    normalize_joined_iff derived derived' whole]

end

end Formula

/-! ### The rules that compose -/

/-- Of two steps that hold one readable formula each, the rules that join formulas always make a
step. Its formula can be read, and it reads to the joined formulas, up to double negations or not,
exactly if both texts fit on their sides of the connective without parentheses. -/
theorem composition_groups_iff (op : Connective) (s : Derivation) (x y : Step) (a b : String)
    (l r : Formula) (holds : x.formulas = [a]) (holds' : y.formulas = [b])
    (left : Formula.parse none a = .ok l) (right : Formula.parse none b = .ok r) :
    let composed := Formula.joinText op a b
    (∃ step, (Inference.compose op).origin.1.apply s.limit [x, y]
        (Inference.compose op).origin.2 = .ok step ∧ step.formulas = [composed] ∧
        (s.push step).formulas = s.formulas ++ [composed]) ∧
    Formula.Reads composed ∧
    (Formula.parse none composed = .ok (.binary op l r) ↔
      Formula.FitsLeft op a ∧ Formula.FitsRight op b) ∧
    (Formula.canonical none composed =
        .ok (Formula.joinText op l.normalize.render r.normalize.render) ↔
      Formula.FitsLeft op a ∧ Formula.FitsRight op b) := by
  have made : (Inference.compose op).derive s.limit [x, y] =
      .ok ((Inference.compose op).stepOf [x, y] (Formula.joinText op a b)) :=
    Inference.derive_ok_iff.mpr ⟨[a, b], _, by simp [holds, holds'], rfl, rfl⟩
  have applied : (Inference.compose op).origin.1.apply s.limit [x, y]
      (Inference.compose op).origin.2 = (Inference.compose op).derive s.limit [x, y] :=
    Inference.apply_origin rfl
  rw [made] at applied
  refine ⟨⟨_, applied, rfl, ?_⟩, ?_, ?_, ?_⟩
  · exact Derivation.push_formulas s _
  · exact Formula.joinText_reads op ⟨l, left⟩ ⟨r, right⟩
  · exact Formula.parse_joinText_iff left right
  · exact Formula.canonical_joinText_iff left right

theorem conjunction_groups_in_disjunction :
    Formula.parse none "p AND q" = .ok (.binary .and (.atom "p") (.atom "q")) ∧
    Formula.parse none "r" = .ok (.atom "r") ∧
    Formula.canonical none (Formula.joinText .or "p AND q" "r") = .ok "((p ∧ q) ∨ r)" := by
  have left : Formula.parse none "p AND q" = .ok (.binary .and (.atom "p") (.atom "q")) := by cbv
  have right : Formula.parse none "r" = .ok (.atom "r") := by cbv
  have fitsLeft : Formula.FitsLeft .or "p AND q" := by
    have spelled : Spells "p AND q".toList
        [.identifier "p", .operator (.connective .and), .identifier "q"] :=
      ofText_ok.mp ⟨⟨[⟨.identifier "p", 0⟩, ⟨.operator (.connective .and), 2⟩,
        ⟨.identifier "q", 6⟩], 7⟩, by cbv, rfl⟩
    have conjuncts :=
      Derives.and (.negation (.primary (.identifier "p"))) (.primary (.identifier "q"))
    exact ⟨_, _, spelled, .conjunction conjuncts⟩
  have fitsRight : Formula.FitsRight .or "r" :=
    (Formula.render_fits (t := .atom "r") (Formula.proper_atom.mpr (by decide))).2
  obtain ⟨-, -, -, grouped⟩ := composition_groups_iff .or {} (Step.proposition "p AND q")
    (Step.proposition "r") "p AND q" "r" _ _ rfl rfl left right
  exact ⟨left, right, grouped.mpr ⟨fitsLeft, fitsRight⟩⟩

/-- An implication that stands to the left of `∧` without parentheses takes the conjunction as its
consequent. -/
theorem implication_regroups_in_conjunction :
    let s := (({ limit := none } : Derivation).push (Step.proposition "p -> q")).push
      (Step.proposition "r")
    (∃ step, Rule.alpha.apply s.limit s.steps (.str "and") = .ok step ∧
      step.formulas = ["(p -> q ∧ r)"]) ∧
    Formula.canonical none "p -> q" = .ok "(p → q)" ∧ Formula.canonical none "r" = .ok "r" ∧
    Formula.canonical none "(p -> q ∧ r)" = .ok "(p → (q ∧ r))" ∧
    "(p → (q ∧ r))" ≠ Formula.joinText .and "(p → q)" "r" := by
  refine ⟨⟨_, rfl, rfl⟩, ?_, ?_, ?_, by decide⟩
  · cbv
  · cbv
  · cbv

end Premise
