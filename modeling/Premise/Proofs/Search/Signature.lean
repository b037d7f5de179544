import Premise.Proofs.Formula.Balance
import Premise.Proofs.Search.Chain

/-!
Signatures. A signature joins the known texts by bars, and bars stand in texts too; still the texts
in parentheses can be read off it, and these are all that a chain adds. Main statement:
`Chain.alike`, that states at the ends of chains are alike if they have one signature.
-/
namespace Premise

namespace Formula

theorem Joined.groups {text : String} (h : Joined text) :
    groups 0 [] text.toList = [text.toList] := by
  obtain ⟨op, a, b, left, right, rfl⟩ := h
  exact groups_joinText op left.balanced right.balanced

end Formula

namespace Derivation

variable {s t t' : Derivation} {maxSteps : Int} {fs gs : List String} {n m : Nat}

theorem Grown.known (grown : Grown s fs t) (novel : Novel s fs) : t.known = s.known ++ fs := by
  have stripped : fs.map Formula.stripDoubleNegation = fs := by
    rw [List.map_congr_left fun f member => (novel.joined f member).strip, List.map_id']
  have kept : fs.removeAll (s.formulas.map Formula.stripDoubleNegation) = fs := by
    rw [List.removeAll, List.filter_eq_self]
    intro f member
    simpa [← Derivation.mem_known] using novel.new f member
  rw [Derivation.known, grown.formulas, List.map_append, stripped, List.eraseDups_append, kept,
    eraseDups_of_nodup novel.distinct, Derivation.known]

theorem signature_groups (readable : ∀ f ∈ s.formulas, Formula.Reads f) :
    (groups 0 [] s.signature.toList).Perm (s.known.flatMap fun f => groups 0 [] f.toList) := by
  have sorted : (Text.sorted s.known).Perm s.known := List.mergeSort_perm _ _
  have balanced : ∀ cs ∈ (Text.sorted s.known).map String.toList,
      Validation.balancedFrom 0 cs = true := by
    intro cs member
    obtain ⟨f, inside, rfl⟩ := List.mem_map.mp member
    obtain ⟨g, held, rfl⟩ := mem_known.mp (sorted.mem_iff.mp inside)
    exact Formula.strip_balanced (readable g held)
  rw [signature, String.toList_intercalate, groups_intercalate balanced, List.flatMap_map]
  exact sorted.flatMap_right _

theorem Novel.groups (novel : Novel s fs) :
    (fs.flatMap fun f => groups 0 [] f.toList) = fs.map String.toList := by
  rw [List.flatMap_def, List.map_congr_left fun f member => (novel.joined f member).groups,
    ← List.flatMap_def]
  exact List.map_eq_flatMap.symm

/-- A signature tells, up to their order, which formulas were added. -/
theorem Grown.perm_of_signature (left : Grown s fs t) (novel : Novel s fs) (right : Grown s gs t')
    (novel' : Novel s gs) (readable : ∀ f ∈ s.formulas, Formula.Reads f)
    (same : t.signature = t'.signature) : fs.Perm gs := by
  have first := signature_groups (left.reads novel readable)
  have second := signature_groups (right.reads novel' readable)
  rw [same, left.known novel, List.flatMap_append, novel.groups] at first
  rw [right.known novel', List.flatMap_append, novel'.groups] at second
  -- What the texts of `s` contribute, whatever it is, is the same on both sides.
  have texts := (List.perm_append_left_iff _).mp (first.symm.trans second)
  simpa [Function.comp_def] using texts.map String.ofList

theorem Chain.alike (left : Chain maxSteps s n t) (right : Chain maxSteps s m t')
    (readable : ∀ f ∈ s.formulas, Formula.Reads f) (same : t.signature = t'.signature) :
    Alike s t t' := by
  obtain ⟨fs, -, grown, novel⟩ := left.grown readable
  obtain ⟨gs, -, grown', novel'⟩ := right.grown readable
  exact ⟨fs, gs, grown.perm_of_signature novel grown' novel' readable same, novel, grown, grown'⟩

end Derivation

end Premise
