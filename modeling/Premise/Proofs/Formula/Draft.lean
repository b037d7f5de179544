import Premise.Formula.Draft
import Premise.Proofs.Formula.Height
import Premise.Proofs.Formula.Truth

/-!
Drafts that are whole formulas. What is done with such a draft agrees with what is done with the
formula. Main statement: `rendering_determines_tree`, that a rendering reads back to the very tree,
so that two trees are the same exactly where their renderings are.
-/
namespace Premise.Draft

/-- Nothing is missing or foreign, every operator exists and every name is an identifier. -/
def WellFormed : Draft → Prop
  | atom (.str name) => isIdentifier name = true
  | neg operator d => operator = negation ∧ d.WellFormed
  | binary operator l r =>
    (∃ op : Connective, operator = .str op.name) ∧ l.WellFormed ∧ r.WellFormed
  | _ => False

theorem wellFormed_ofFormula {t : Formula} : (ofFormula t).WellFormed ↔ t.Proper := by
  induction t with
  | atom name => exact Formula.proper_atom.symm
  | neg t ih =>
    rw [Formula.proper_neg, ← ih]
    exact and_iff_right rfl
  | binary op l r left right =>
    rw [Formula.proper_binary, ← left, ← right]
    exact and_iff_right ⟨op, rfl⟩

theorem exists_of_wellFormed {d : Draft} (h : d.WellFormed) : ∃ t, d = ofFormula t := by
  induction d with
  | atom name =>
    cases name with
    | str name => exact ⟨.atom name, rfl⟩
    | _ => cases h
  | neg operator d ih =>
    obtain ⟨rfl, whole⟩ := h
    obtain ⟨t, rfl⟩ := ih whole
    exact ⟨.neg t, rfl⟩
  | binary operator l r left right =>
    obtain ⟨⟨op, rfl⟩, whole, whole'⟩ := h
    obtain ⟨t, rfl⟩ := left whole
    obtain ⟨u, rfl⟩ := right whole'
    exact ⟨.binary op t u, rfl⟩
  | missing | foreign => cases h

/-! ### Agreement with formulas -/

@[simp] theorem connective?_name (op : Connective) : connective? (.str op.name) = some op := by
  cases op <;> rfl

@[simp] theorem symbol_name (op : Connective) : symbol (.str op.name) = .ok op.symbol := by
  simp [symbol]

theorem render_ofFormula (t : Formula) : (ofFormula t).render = .ok (.str t.render) := by
  induction t with
  | atom name => rfl
  | neg t ih =>
    rw [ofFormula, render, ih]
    rfl
  | binary op l r left right =>
    rw [ofFormula, render, symbol_name, left, right]
    rfl

theorem flip_ofFormula (t : Formula) : (ofFormula t).flip = ofFormula t.flip := by
  cases t <;> rfl

theorem normalize_ofFormula (t : Formula) :
    (ofFormula t).normalize = .ok (ofFormula t.normalize) := by
  induction t with
  | atom name => rfl
  | neg t ih =>
    rw [ofFormula, normalize, ih, Formula.normalize, ← flip_ofFormula]
    rfl
  | binary op l r left right =>
    rw [ofFormula, normalize, left, right]
    rfl

theorem same_str (s t : String) : (Value.str s).same (.str t) = (s == t) := by
  simp [Value.same, Value.sameKey]

theorem name_inj {op op' : Connective} : op.name = op'.name ↔ op = op' := by
  cases op <;> cases op' <;> decide

theorem same?_ofFormula (t u : Formula) :
    (ofFormula t).same? (ofFormula u) = some (decide (t = u)) := by
  induction t generalizing u with
  | atom name => cases u <;> simp [ofFormula, same?, same_str, Bool.beq_eq_decide_eq]
  | neg t ih =>
    cases u with
    | neg u => simp [ofFormula, same?, ih]
    | _ => simp [ofFormula, same?]
  | binary op l r left right =>
    cases u with
    | binary op' l' r' =>
      simp only [ofFormula, same?, same_str, left, right]
      by_cases operator : op = op'
      · by_cases first : l = l'
        · simp [operator, first]
        · simp [operator, first]
      · simp [operator, name_inj]
    | _ => simp [ofFormula, same?]

theorem ofFormula_injective {t u : Formula} (same : ofFormula t = ofFormula u) : t = u := by
  have compared := same?_ofFormula t u
  rw [same, same?_ofFormula u u] at compared
  simpa [eq_comm] using compared

/-! ### Renderings as keys -/

/-- The rendering of a tree over identifiers reads back to that very tree, and its normal form to
the normalized one, under every limit on nesting that is not below the height of the tree. Two such
trees have one rendering exactly if they are the same. -/
theorem rendering_determines_tree (d : Draft) (whole : d.WellFormed) :
    ∃ t : Formula, d = ofFormula t ∧ d.render = .ok (.str t.render) ∧
      d.normalize = .ok (ofFormula t.normalize) ∧
      (∀ limit : Option Nat, (∀ n ∈ limit, t.height ≤ n) →
        Formula.parse limit t.render = .ok t ∧ Formula.read limit t.render = .ok t.normalize) ∧
      ∀ e : Draft, e.WellFormed → (d.render = e.render ↔ d.same? e = some true) := by
  obtain ⟨t, rfl⟩ := exists_of_wellFormed whole
  have proper := wellFormed_ofFormula.mp whole
  refine ⟨t, rfl, render_ofFormula t, normalize_ofFormula t, ?_, ?_⟩
  · intro limit within
    exact ⟨Formula.parse_render_within proper within, Formula.read_render_within proper within⟩
  · intro e whole'
    obtain ⟨u, rfl⟩ := exists_of_wellFormed whole'
    have proper' := wellFormed_ofFormula.mp whole'
    rw [render_ofFormula, render_ofFormula, same?_ofFormula]
    constructor
    · intro same
      have texts : t.render = u.render := by simpa using same
      simp [Formula.render_injective proper proper' texts]
    · intro same
      have trees : t = u := by simpa using same
      rw [trees]

theorem implication_determined :
    (ofFormula (.binary .implies (.neg (.neg (.atom "p"))) (.atom "q"))).WellFormed ∧
    Formula.parse (some 2) "(~~p → q)" =
      .ok (.binary .implies (.neg (.neg (.atom "p"))) (.atom "q")) ∧
    Formula.read (some 2) "(~~p → q)" = .ok (.binary .implies (.atom "p") (.atom "q")) := by
  have proper : (Formula.binary .implies (.neg (.neg (.atom "p"))) (.atom "q")).Proper := by
    unfold Formula.Proper
    decide
  have whole := wellFormed_ofFormula.mpr proper
  obtain ⟨t, same, -, -, reads, -⟩ := rendering_determines_tree _ whole
  have trees := ofFormula_injective same
  subst trees
  have shown : (Formula.binary .implies (.neg (.neg (.atom "p"))) (.atom "q")).render =
      "(~~p → q)" := by decide
  have read := reads (some 2) (by rintro n ⟨⟩; decide)
  rw [shown] at read
  exact ⟨whole, read⟩

end Premise.Draft
