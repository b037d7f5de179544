import Premise.Proofs.Formula.Reading

/-!
Truth of formulas under an assignment to the atoms. Main statements: normalizing keeps the truth
value, and texts with one canonical text are true together.
-/
namespace Premise

namespace Formula

def holds (v : String → Bool) : Formula → Bool
  | atom name => v name
  | neg t => !t.holds v
  | binary .and l r => l.holds v && r.holds v
  | binary .or l r => l.holds v || r.holds v
  | binary .implies l r => !l.holds v || r.holds v
  | binary .iff l r => l.holds v == r.holds v

theorem holds_flip (v : String → Bool) (t : Formula) : t.flip.holds v = !t.holds v := by
  cases t <;> simp [flip, holds]

theorem holds_normalize (v : String → Bool) (t : Formula) : t.normalize.holds v = t.holds v := by
  induction t with
  | atom name => rfl
  | neg t ih => rw [normalize, holds_flip, ih, holds]
  | binary op l r left right => cases op <;> simp only [normalize, holds, left, right]

theorem holds_binary {v : String → Bool} (op : Connective) {l r : Formula}
    (left : l.holds v = true) (right : r.holds v = true) : (binary op l r).holds v = true := by
  cases op <;> simp [holds, left, right]

theorem holds_contrapositive (v : String → Bool) (l r : Formula) :
    (binary .implies (neg r) (neg l)).holds v = (binary .implies l r).holds v := by
  simp only [holds, Bool.not_not]
  exact Bool.or_comm _ _

theorem render_injective {t u : Formula} (proper : t.Proper) (proper' : u.Proper)
    (same : t.render = u.render) : t = u := by
  have read := parse_render proper
  rw [same, parse_render proper'] at read
  exact (Except.ok.inj read).symm

/-! ### Texts -/

/-- The text is the rendering of a tree over identifiers. -/
def IsRendering (text : String) : Prop :=
  ∃ t : Formula, t.Proper ∧ text = t.render

/-- The text reads to a tree that is true. -/
def TextHolds (v : String → Bool) (text : String) : Prop :=
  ∃ t, parse none text = .ok t ∧ t.holds v = true

theorem textHolds_render {v : String → Bool} {t : Formula} (proper : t.Proper) :
    TextHolds v t.render ↔ t.holds v = true := by
  constructor
  · rintro ⟨u, read, truth⟩
    rw [parse_render proper] at read
    cases read
    exact truth
  · exact fun truth => ⟨t, parse_render proper, truth⟩

theorem canonical_ok {limit : Option Nat} {text c : String} (h : canonical limit text = .ok c) :
    ∃ t, parse limit text = .ok t ∧ c = t.normalize.render := by
  unfold canonical at h
  cases read : Formula.read limit text with
  | error e => rw [read] at h; cases h
  | ok u =>
    rw [read] at h
    cases h
    obtain ⟨t, parsed, rfl⟩ := read_ok read
    exact ⟨t, parsed, rfl⟩

theorem canonical_none {limit : Option Nat} {text c : String} (h : canonical limit text = .ok c) :
    canonical none text = .ok c := by
  obtain ⟨t, parsed, rfl⟩ := canonical_ok h
  exact canonical_of_parse (parse_none parsed)

theorem Reads.of_canonical {limit : Option Nat} {text c : String}
    (h : canonical limit text = .ok c) : Reads text := by
  obtain ⟨t, parsed, -⟩ := canonical_ok h
  exact ⟨t, parse_none parsed⟩

theorem normalize_eq_of_canonical {limit : Option Nat} {a b c : String} {t u : Formula}
    (left : canonical limit a = .ok c) (right : canonical limit b = .ok c)
    (read : parse none a = .ok t) (read' : parse none b = .ok u) : t.normalize = u.normalize := by
  obtain ⟨t', parsed, rfl⟩ := canonical_ok left
  obtain ⟨u', parsed', same⟩ := canonical_ok right
  have first : t' = t := Except.ok.inj ((parse_none parsed).symm.trans read)
  have second : u' = u := Except.ok.inj ((parse_none parsed').symm.trans read')
  subst first second
  exact render_injective (proper_normalize (proper_of_parse read))
    (proper_normalize (proper_of_parse read')) same

theorem textHolds_of_canonical {v : String → Bool} {limit : Option Nat} {a b c : String}
    (left : canonical limit a = .ok c) (right : canonical limit b = .ok c)
    (truth : TextHolds v a) : TextHolds v b := by
  obtain ⟨t, read, true_t⟩ := truth
  obtain ⟨u, parsed, -⟩ := canonical_ok right
  have same := normalize_eq_of_canonical left right read (parse_none parsed)
  refine ⟨u, parse_none parsed, ?_⟩
  rw [← holds_normalize, ← same, holds_normalize, true_t]

end Formula

end Premise
