import Mathlib.Data.List.Forall2
import Premise.Proofs.Derivation.Padding
import Premise.Proofs.Formula.Exchange
import Premise.Proofs.Rule.Meaning

/-!
Texts that stand for one another. An inference on one of two such texts comes to the same as on the
other, up to texts that stand for one another again: what is joined is an operand and no literal, and
double negation keeps operands. Main statements: `conclude_backed` and `conclude_stands`.
-/
namespace Premise

variable {known premises fs gs : List String} {limit : Option Nat} {a b f g name text : String}

/-- An operand, and a known one if it means a literal. -/
def Firm (known : List String) (f : String) : Prop :=
  Formula.IsOperand f ∧
    ∀ name text, Literal name text → Formula.canonical none f = .ok text → text ∈ known

/-- The second text stands for the first wherever the known literals are known. -/
def Stands (known : List String) (f g : String) : Prop :=
  f = g ∨ Formula.IsOperand f ∧ Firm known g ∧ Formula.Agree f g

/-- The text means what a premise means, or it is firm. -/
def Backed (known premises : List String) (f : String) : Prop :=
  (∃ p ∈ premises, Formula.Agree p f) ∨ Firm known f

/-! ### Literals -/

theorem Literal.operand (literal : Literal name text) (agree : Formula.Agree f text) :
    Formula.IsOperand f := by
  obtain ⟨t, proper, -, rfl, single, -⟩ := literal.tree
  obtain ⟨c, read, read'⟩ := agree
  obtain ⟨u, parsed, -⟩ := Formula.canonical_ok read
  have same := Formula.normalize_eq_of_canonical read read' parsed (Formula.parse_render proper)
  refine Formula.isOperand_of_leaf parsed ?_
  rw [← Formula.leaves_normalize, same, Formula.leaves_normalize, single]
  rfl

theorem Literal.agree (literal : Literal name text) : Formula.Agree text text :=
  ⟨text, literal.canonical, literal.canonical⟩

theorem Literal.firm (literal : Literal name text) (held : text ∈ known) : Firm known text := by
  refine ⟨literal.operand literal.agree, fun name' other literal' means => ?_⟩
  cases literal.canonical.symm.trans means
  exact held

/-- Joined texts mean no literal. -/
theorem Literal.not_joined {op : Connective} (literal : Literal name text) :
    Formula.canonical limit (Formula.joinText op a b) ≠ .ok text := by
  obtain ⟨t, proper, -, rfl, single, -⟩ := literal.tree
  exact Formula.canonical_joinText_ne proper (by rw [single]; rfl)

theorem Formula.Joined.firm (joined : Formula.Joined f) : Firm known f := by
  obtain ⟨op, a, b, left, right, rfl⟩ := joined
  exact ⟨Formula.isOperand_joinText op left right,
    fun name text literal means => absurd means literal.not_joined⟩

/-! ### Double negation -/

/-- Rewriting a text so that operands stay operands and the meaning stays what it is. -/
structure Recasts (r : String → String) : Prop where
  operand : ∀ {a : String}, Formula.IsOperand a → Formula.IsOperand (r a)
  means : ∀ {a c : String}, Formula.canonical none (r a) = .ok c ↔ Formula.canonical none a = .ok c

namespace Recasts

variable {r : String → String}

theorem doubled : Recasts Inference.doubled where
  operand {a} operand := by
    rcases Inference.doubled_cases a with same | signed
    · rwa [same]
    · rw [signed]
      exact Formula.isOperand_doubled.mpr operand
  means := Inference.canonical_doubled

theorem halved : Recasts Inference.halved where
  operand {a} operand := by
    rcases Inference.halved_cases a with same | signed
    · rwa [same]
    · rw [signed] at operand
      exact Formula.isOperand_doubled.mp operand
  means := Inference.canonical_halved

theorem firm (recasts : Recasts r) (firm : Firm known a) : Firm known (r a) :=
  ⟨recasts.operand firm.1, fun name text literal means =>
    firm.2 name text literal (recasts.means.mp means)⟩

theorem agree (recasts : Recasts r) (agree : Formula.Agree a b) : Formula.Agree a (r b) := by
  obtain ⟨c, read, read'⟩ := agree
  exact ⟨c, read, recasts.means.mpr read'⟩

theorem backed (recasts : Recasts r) (backed : Backed known premises a) :
    Backed known premises (r a) := by
  rcases backed with ⟨p, stated, agree⟩ | firm
  · exact Or.inl ⟨p, stated, recasts.agree agree⟩
  · exact Or.inr (recasts.firm firm)

theorem stands (recasts : Recasts r) (stands : Stands known a b) : Stands known (r a) (r b) := by
  rcases stands with rfl | ⟨operand, firm, agree⟩
  · exact Or.inl rfl
  · exact Or.inr ⟨recasts.operand operand, recasts.firm firm,
      (recasts.agree (recasts.agree agree).symm).symm⟩

end Recasts

/-! ### Conclusions -/

theorem Stands.agree (stands : Stands known f g) (reads : Formula.Reads f) : Formula.Agree f g := by
  rcases stands with rfl | ⟨-, -, agree⟩
  · exact Formula.agree_self reads
  · exact agree

theorem Stands.exchange (stands : Stands known f g) : Formula.Exchange f g := by
  rcases stands with rfl | ⟨operand, firm, agree⟩
  · exact Or.inl rfl
  · exact Or.inr ⟨operand, firm.1, agree⟩

namespace Inference

variable {i : Inference}

theorem conclude_backed (backed : ∀ g ∈ fs, Backed known premises g)
    (reads : ∀ g ∈ fs, Formula.Reads g) (found : i.conclude limit fs = .ok f) :
    Backed known premises f := by
  rcases conclude_ok found with ⟨op, a, b, -, rfl, rfl⟩ | ⟨a, -, rfl, contraposed⟩ |
    ⟨a, -, rfl, rfl⟩ | ⟨a, -, rfl, rfl⟩
  · have joined : Formula.Joined (Formula.joinText op a b) :=
      ⟨op, a, b, reads a (by simp), reads b (by simp), rfl⟩
    exact Or.inr joined.firm
  · exact Or.inr (Formula.contrapositive_joined contraposed).firm
  · exact Recasts.doubled.backed (backed a (by simp))
  · exact Recasts.halved.backed (backed a (by simp))

theorem contrapositive_agree (agree : Formula.Agree a b) (found : contrapositive limit a = .ok f)
    {c : String} (readable : Formula.canonical limit b = .ok c) :
    contrapositive limit b = .ok f := by
  obtain ⟨x, y, read, rfl⟩ := contrapositive_ok_iff.mp found
  obtain ⟨u, read', -⟩ := Formula.canonical_ok_iff.mp readable
  obtain ⟨v, parsed, same⟩ := Formula.read_ok read
  obtain ⟨w, parsed', rfl⟩ := Formula.read_ok read'
  have normal := (Formula.agree_iff (Formula.parse_none parsed) (Formula.parse_none parsed')).mp agree
  refine contrapositive_ok_iff.mpr ⟨x, y, ?_, rfl⟩
  rw [read', same, normal]

/-- On inputs that stand for those it was made of, an inference comes to a conclusion that stands for
its conclusion. -/
theorem conclude_stands (stands : List.Forall₂ (Stands known) fs gs)
    (reads : ∀ g ∈ fs, Formula.Reads g) (readable : ∀ g ∈ gs, ∃ c, Formula.canonical limit g = .ok c)
    (found : i.conclude limit fs = .ok f) :
    ∃ g, i.conclude limit gs = .ok g ∧ Stands known f g := by
  rcases conclude_ok found with ⟨op, a, b, rfl, rfl, rfl⟩ | ⟨a, rfl, rfl, contraposed⟩ |
    ⟨a, rfl, rfl, rfl⟩ | ⟨a, rfl, rfl, rfl⟩
  · obtain ⟨a', _, left, rest, rfl⟩ := List.forall₂_cons_left_iff.mp stands
    obtain ⟨b', _, right, last, rfl⟩ := List.forall₂_cons_left_iff.mp rest
    obtain rfl := List.forall₂_nil_left_iff.mp last
    have read : Formula.Reads a := reads a (by simp)
    have read' : Formula.Reads b := reads b (by simp)
    have joined : Formula.Joined (Formula.joinText op a' b') :=
      ⟨op, a', b', left.exchange.reads read, right.exchange.reads read', rfl⟩
    exact ⟨_, rfl, Or.inr ⟨Formula.isOperand_joinText op read read', joined.firm,
      left.exchange.joinText op right.exchange read read'⟩⟩
  · obtain ⟨b, _, single, last, rfl⟩ := List.forall₂_cons_left_iff.mp stands
    obtain rfl := List.forall₂_nil_left_iff.mp last
    obtain ⟨c, readable⟩ := readable b (by simp)
    have agree := single.agree (reads a (by simp))
    exact ⟨f, contrapositive_agree agree contraposed readable, Or.inl rfl⟩
  · obtain ⟨b, _, single, last, rfl⟩ := List.forall₂_cons_left_iff.mp stands
    obtain rfl := List.forall₂_nil_left_iff.mp last
    exact ⟨_, rfl, Recasts.doubled.stands single⟩
  · obtain ⟨b, _, single, last, rfl⟩ := List.forall₂_cons_left_iff.mp stands
    obtain rfl := List.forall₂_nil_left_iff.mp last
    exact ⟨_, rfl, Recasts.halved.stands single⟩

end Inference

end Premise
