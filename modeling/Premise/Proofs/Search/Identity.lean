import Premise.Proofs.Formula.Bars
import Premise.Proofs.Search.Signature

/-!
What a signature tells. Derivations that know the same have one signature, but those of one
signature may know different texts, since a bar joins texts and also stands in them. Main statement:
`signature_identifies`, when it is the same knowledge; among the states of one search it always is.
-/
namespace Premise.Derivation

variable {s t u v : Derivation}

def SameKnowledge (s t : Derivation) : Prop :=
  ∀ f, f ∈ s.known ↔ f ∈ t.known

theorem sameKnowledge_iff_sorted :
    SameKnowledge s t ↔ Text.sorted s.known = Text.sorted t.known := by
  constructor
  · intro same
    exact Text.sorted_congr
      ((List.perm_ext_iff_of_nodup (nodup_eraseDups _) (nodup_eraseDups _)).mpr same)
  · intro same f
    rw [← (Text.sorted_perm s.known).mem_iff, same, (Text.sorted_perm t.known).mem_iff]

theorem SameKnowledge.signature (same : SameKnowledge s t) : s.signature = t.signature := by
  rw [Derivation.signature, Derivation.signature, sameKnowledge_iff_sorted.mp same]

theorem known_closed (readable : ∀ f ∈ s.formulas, Formula.Reads f) :
    ∀ f ∈ Text.sorted s.known, Closed f := by
  intro f member
  obtain ⟨g, held, rfl⟩ := mem_known.mp ((Text.sorted_perm _).mem_iff.mp member)
  exact (readable g held).closed_strip

theorem signature_eq_iff (readable : ∀ f ∈ s.formulas, Formula.Reads f)
    (readable' : ∀ f ∈ t.formulas, Formula.Reads f) : s.signature = t.signature ↔
      (Text.sorted s.known).flatMap outerParts = (Text.sorted t.known).flatMap outerParts :=
  outerParts_eq_iff (known_closed readable) (known_closed readable')

theorem flatMap_outerParts (single : ∀ f ∈ s.known, outerParts f = [f]) :
    (Text.sorted s.known).flatMap outerParts = Text.sorted s.known := by
  have alone : ∀ f ∈ Text.sorted s.known, outerParts f = [f] := fun f member =>
    single f ((Text.sorted_perm _).mem_iff.mp member)
  rw [List.flatMap_def, List.map_congr_left alone, ← List.flatMap_def, List.flatMap_singleton']

theorem Alike.sameKnowledge (alike : Alike s u v) : SameKnowledge u v := by
  obtain ⟨fs, gs, same, novel, grown, grown'⟩ := alike
  intro f
  rw [grown.mem_known novel, grown'.mem_known (novel.perm same), same.mem_iff]

/-- Derivations that know the same texts have one signature. Two signatures are the same exactly if
the known texts, in order, have the same parts between the bars that stand outside parentheses; so
it is the same knowledge where no known text has such a bar. And it is the same knowledge wherever
two chains of rounds from one derivation lead, whatever bars stand in its texts. -/
theorem signature_identifies (s t : Derivation) (readable : ∀ f ∈ s.formulas, Formula.Reads f)
    (readable' : ∀ f ∈ t.formulas, Formula.Reads f) :
    (SameKnowledge s t → s.signature = t.signature) ∧
    (s.signature = t.signature ↔
      (Text.sorted s.known).flatMap outerParts = (Text.sorted t.known).flatMap outerParts) ∧
    ((∀ f ∈ s.known ++ t.known, outerParts f = [f]) →
      (s.signature = t.signature ↔ SameKnowledge s t)) ∧
    ∀ maxSteps m n u v, Chain maxSteps s m u → Chain maxSteps s n v →
      (u.signature = v.signature ↔ SameKnowledge u v) := by
  have by_parts := signature_eq_iff readable readable'
  refine ⟨SameKnowledge.signature, by_parts, fun single => ?_, ?_⟩
  · obtain ⟨first, second⟩ := List.forall_mem_append.mp single
    rw [by_parts, flatMap_outerParts first, flatMap_outerParts second, sameKnowledge_iff_sorted]
  · intro maxSteps m n u v left right
    exact ⟨fun same => (left.alike right readable same).sameKnowledge, SameKnowledge.signature⟩

theorem names_told_apart : (ofName "p").signature ≠ (ofName "q").signature ∧
    ∀ maxSteps m n u v, Chain maxSteps (ofName "p") m u → Chain maxSteps (ofName "p") n v →
      (u.signature = v.signature ↔ SameKnowledge u v) := by
  have readable := ofName_readable (show isIdentifier "p" = true by decide)
  have readable' := ofName_readable (show isIdentifier "q" = true by decide)
  obtain ⟨-, -, plain, reached⟩ := signature_identifies (ofName "p") (ofName "q") readable readable'
  have noBar : ∀ f ∈ (ofName "p").known ++ (ofName "q").known, '|' ∉ f.toList := by decide
  have single := plain fun f member => outerParts_plain (noBar f member)
  refine ⟨fun same => ?_, reached⟩
  have known : "p" ∈ (ofName "q").known := (single.mp same "p").mp (by decide)
  revert known
  decide

def twoFacts : Derivation := { facts := ["A", "B"] }

def disjunctionFact : Derivation := { facts := ["A | B"] }

/-- Two facts and their disjunction have one signature. -/
theorem disjunction_signed_alike :
    (∀ f ∈ twoFacts.formulas ++ disjunctionFact.formulas, Formula.Reads f) ∧
    twoFacts.signature = disjunctionFact.signature ∧ ¬ SameKnowledge twoFacts disjunctionFact := by
  have ordered : Text.sorted twoFacts.known = ["A", "B"] :=
    (Text.eq_sorted (by decide) (.refl ["A", "B"])).symm
  have alone : Text.sorted disjunctionFact.known = ["A | B"] :=
    (Text.eq_sorted (by decide) (.refl ["A | B"])).symm
  refine ⟨?_, by rw [signature, signature, ordered, alone]; rfl, fun same => ?_⟩
  · have first : Formula.Reads "A" := ⟨.atom "A", by cbv⟩
    have second : Formula.Reads "B" := ⟨.atom "B", by cbv⟩
    have both : Formula.Reads "A | B" := ⟨.binary .or (.atom "A") (.atom "B"), by cbv⟩
    simp [formulas, twoFacts, disjunctionFact, first, second, both]
  · have known : "A" ∈ disjunctionFact.known := (same "A").mp (by decide)
    revert known
    decide

end Premise.Derivation
