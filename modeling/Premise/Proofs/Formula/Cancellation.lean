import Premise.Proofs.Formula.DoubleNegation
import Premise.Proofs.Formula.Truth

/-!
Double negation as a congruence. Two trees are equal up to double negations exactly if normalizing
makes them the same, and the normalized tree is the only one among them that has no negation directly
under a negation. Main statement: `canonical_decides_cancellation`.
-/
namespace Premise

namespace Formula

/-- The least congruence in which a doubly negated formula is the formula. -/
inductive Cancels : Formula → Formula → Prop where
  | double (t : Formula) : Cancels (neg (neg t)) t
  | refl (t : Formula) : Cancels t t
  | symm {t u : Formula} : Cancels t u → Cancels u t
  | trans {t u v : Formula} : Cancels t u → Cancels u v → Cancels t v
  | neg {t u : Formula} : Cancels t u → Cancels (neg t) (neg u)
  | binary (op : Connective) {l l' r r' : Formula} :
      Cancels l l' → Cancels r r' → Cancels (binary op l r) (binary op l' r')

/-- No negation directly under a negation. -/
def Reduced : Formula → Prop
  | atom _ => True
  | neg (neg _) => False
  | neg (atom _) => True
  | neg (binary _ l r) => l.Reduced ∧ r.Reduced
  | binary _ l r => l.Reduced ∧ r.Reduced

variable {t u : Formula}

theorem cancels_flip (t : Formula) : Cancels (neg t) t.flip := by
  cases t with
  | neg t => exact .double t
  | atom name => exact .refl _
  | binary op l r => exact .refl _

theorem cancels_normalize (t : Formula) : Cancels t t.normalize := by
  induction t with
  | atom name => exact .refl _
  | neg t ih => exact .trans (.neg ih) (cancels_flip t.normalize)
  | binary op l r left right => exact .binary op left right

theorem Cancels.normalize_eq (h : Cancels t u) : t.normalize = u.normalize := by
  induction h with
  | double t => exact t.flip_flip_normalize
  | refl t => rfl
  | symm _ ih => exact ih.symm
  | trans _ _ first second => exact first.trans second
  | neg _ ih => simp only [normalize, ih]
  | binary op _ _ left right => simp only [normalize, left, right]

theorem cancels_iff : Cancels t u ↔ t.normalize = u.normalize := by
  constructor
  · exact Cancels.normalize_eq
  · intro same
    have left := cancels_normalize t
    rw [same] at left
    exact left.trans (cancels_normalize u).symm

/-! ### Reduced trees -/

theorem reduced_flip (h : t.Reduced) : t.flip.Reduced := by
  cases t with
  | atom name => trivial
  | binary op l r => exact h
  | neg t =>
    cases t with
    | atom name => trivial
    | neg t => exact h.elim
    | binary op l r => exact h

theorem reduced_normalize (t : Formula) : t.normalize.Reduced := by
  induction t with
  | atom name => trivial
  | neg t ih => exact reduced_flip ih
  | binary op l r left right => exact ⟨left, right⟩

theorem normalize_of_reduced (h : t.Reduced) : t.normalize = t := by
  induction t with
  | atom name => rfl
  | binary op l r left right => rw [normalize, left h.1, right h.2]
  | neg t ih =>
    cases t with
    | atom name => rfl
    | neg t => exact h.elim
    | binary op l r =>
      rw [normalize, ih h]
      rfl

theorem normalize_normalize (t : Formula) : t.normalize.normalize = t.normalize :=
  normalize_of_reduced (reduced_normalize t)

/-! ### Texts -/

theorem canonical_render_normalize {limit : Option Nat} (proper : t.Proper)
    (within : ∀ n ∈ limit, t.normalize.height ≤ n) :
    canonical limit t.normalize.render = .ok t.normalize.render := by
  rw [canonical, read_render_within (proper_normalize proper) within, normalize_normalize]
  rfl

/-- Canonical texts decide whether two texts are the same up to double negations. The canonical text
of a text reads, to the normalized tree, and is its own canonical text, under every limit that is not
below the height of that tree; the tree is reduced and has the truth value of the tree as written. -/
theorem canonical_decides_cancellation {a b : String} (read : parse none a = .ok t)
    (read' : parse none b = .ok u) :
    (canonical none a = canonical none b ↔ Cancels t u) ∧
    (∀ limit c d, canonical limit a = .ok c → canonical limit b = .ok d → (c = d ↔ Cancels t u)) ∧
    ∃ c, canonical none a = .ok c ∧
      (∀ limit, (∀ n ∈ limit, t.normalize.height ≤ n) →
        parse limit c = .ok t.normalize ∧ canonical limit c = .ok c) ∧
      t.normalize.Reduced ∧ ∀ v, t.normalize.holds v = t.holds v := by
  have proper := proper_of_parse read
  have same : t.normalize.render = u.normalize.render ↔ Cancels t u := by
    rw [cancels_iff]
    constructor
    · exact render_injective (proper_normalize proper) (proper_normalize (proper_of_parse read'))
    · exact fun trees => congrArg render trees
  have first := canonical_of_parse read
  have second := canonical_of_parse read'
  refine ⟨?_, ?_, _, first, ?_, reduced_normalize t, fun v => holds_normalize v t⟩
  · rw [first, second, Except.ok.injEq]
    exact same
  · intro limit c d left right
    obtain ⟨t', parsed, rfl⟩ := canonical_ok left
    obtain ⟨u', parsed', rfl⟩ := canonical_ok right
    cases (parse_none parsed).symm.trans read
    cases (parse_none parsed').symm.trans read'
    exact same
  · intro limit within
    exact ⟨parse_render_within (proper_normalize proper) within,
      canonical_render_normalize proper within⟩

theorem doubled_conjunct_decided :
    parse none "~~p & ~q" = .ok (.binary .and (.neg (.neg (.atom "p"))) (.neg (.atom "q"))) ∧
    parse none "(p ∧ ~~~q)" = .ok (.binary .and (.atom "p") (.neg (.neg (.neg (.atom "q"))))) ∧
    canonical none "~~p & ~q" = canonical none "(p ∧ ~~~q)" := by
  have read : parse none "~~p & ~q" =
      .ok (.binary .and (.neg (.neg (.atom "p"))) (.neg (.atom "q"))) := by cbv
  have read' : parse none "(p ∧ ~~~q)" =
      .ok (.binary .and (.atom "p") (.neg (.neg (.neg (.atom "q"))))) := by cbv
  have related : Cancels (.binary .and (.neg (.neg (.atom "p"))) (.neg (.atom "q")))
      (.binary .and (.atom "p") (.neg (.neg (.neg (.atom "q"))))) :=
    .binary .and (.double _) (.symm (.double _))
  exact ⟨read, read', (canonical_decides_cancellation read read').1.mpr related⟩

end Formula

end Premise
