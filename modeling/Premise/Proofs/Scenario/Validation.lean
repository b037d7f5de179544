import Premise.Proofs.Formula.Balance
import Premise.Proofs.Scenario.Document

/-!
Which documents pass the checks. Main statement: `isValid_ofDocument`.
-/
namespace Premise.Validation

variable {limit : Option Nat} {v : Value}

/-! ### Checks together -/

theorem isValid_and {a b : Validation} :
    (a.and b).isValid = true ↔ a.isValid = true ∧ b.isValid = true := by
  simp [isValid, and]

theorem isValid_all {vs : List Validation} :
    (all vs).isValid = true ↔ ∀ a ∈ vs, a.isValid = true := by
  have folded (a : Validation) : (vs.foldl and a).isValid = true ↔
      a.isValid = true ∧ ∀ b ∈ vs, b.isValid = true := by
    induction vs generalizing a with
    | nil => simp
    | cons b vs ih => rw [List.foldl_cons, ih, isValid_and, List.forall_mem_cons, and_assoc]
  rw [all, folded]
  simp [isValid]

@[simp] theorem isValid_empty : ({} : Validation).isValid = true :=
  rfl

@[simp] theorem isValid_error (message : String) : (error message).isValid = false :=
  rfl

@[simp] theorem isValid_require (condition : Bool) (message : String) :
    (require condition (error message)).isValid = condition := by
  cases condition <;> rfl

@[simp] theorem isValid_hint (condition : Bool) (message : String) :
    (require condition (warning message)).isValid = true := by
  cases condition <;> rfl

theorem exists_mem_zipIdx {α : Type} {l : List α} {x : α} (member : x ∈ l) :
    ∃ k, (x, k) ∈ l.zipIdx := by
  rw [← List.zipIdx_map_fst 0 l] at member
  obtain ⟨⟨y, k⟩, inside, rfl⟩ := List.mem_map.mp member
  exact ⟨k, inside⟩

/-! ### Single checks -/

/-- The value is no text, or a formula. -/
def ReadsIfText (limit : Option Nat) (v : Value) : Prop :=
  ∀ f, v = .str f → ∃ t, Formula.parse limit f = .ok t

/-- What reads is balanced, so that the count of parentheses refuses nothing more. -/
theorem isValid_ofFormula {f : String} :
    (ofFormula limit f).isValid = true ↔ ∃ t, Formula.parse limit f = .ok t := by
  unfold ofFormula
  constructor
  · intro valid
    split at valid
    · split at valid
      · cases valid
      · rename_i t parsed
        exact ⟨t, parsed⟩
    · cases valid
  · rintro ⟨t, parsed⟩
    have balanced : isBalanced f = true :=
      Formula.Reads.balanced ⟨t, Formula.parse_none parsed⟩
    rw [if_pos balanced, parsed]
    dsimp only
    split <;> rfl

theorem isValid_ofFormulaValue :
    (ofFormulaValue limit v).isValid = true ↔ ReadsIfText limit v := by
  unfold ofFormulaValue ReadsIfText
  split
  · rename_i f
    rw [isValid_ofFormula]
    simp
  · rename_i other
    simp only [isValid_empty, true_iff]
    rintro f rfl
    exact absurd rfl (other f)

theorem isValid_ofTarget {k : Nat} :
    (ofTarget (v, k)).isValid = true ↔ ∃ f, v = .str f ∧ f ≠ "" := by
  unfold ofTarget
  cases v with
  | str f =>
    by_cases empty : f = ""
    · subst empty
      simp
    · simp [empty]
  | _ => simp

theorem isValid_ofStep {k : Nat} : (ofStep (v, k)).isValid = true ↔
    (∃ entries, v = .map entries) ∧ (v.get "rule").isTrue = true ∧ ∃ items, v.get "from" = .list items := by
  unfold ofStep
  cases v with
  | map entries =>
    dsimp only
    rw [isValid_and, isValid_require]
    generalize (Value.map entries).get "from" = sources
    cases sources <;> simp
  | _ => simp

theorem isValid_ofPropositionItems {seen : List String} {items : List Value} {k : Nat} :
    (ofPropositionItems seen (items.zipIdx k)).isValid = true ↔
      ∃ names : List String, items = names.map .str ∧ names.Nodup ∧ ∀ name ∈ names, name ∉ seen := by
  induction items generalizing seen k with
  | nil => exact iff_of_true rfl ⟨[], rfl, by simp, by simp⟩
  | cons v items ih =>
    rw [List.zipIdx_cons]
    cases v with
    | str name =>
      rw [ofPropositionItems, isValid_and, isValid_and, isValid_require, ih]
      constructor
      · rintro ⟨⟨fresh, -⟩, names, rfl, distinct, unseen⟩
        have fresh : name ∉ seen := by simpa using fresh
        refine ⟨name :: names, rfl, List.nodup_cons.mpr ⟨fun again => ?_, distinct⟩, ?_⟩
        · exact unseen name again (by simp)
        · intro other member
          rcases List.mem_cons.mp member with rfl | later
          · exact fresh
          · exact fun old => unseen other later (List.mem_cons_of_mem _ old)
      · rintro ⟨all, shown, distinct, unseen⟩
        obtain ⟨first, names, rfl, same, rfl⟩ := List.map_eq_cons_iff.mp shown.symm
        cases same
        obtain ⟨fresh, distinct⟩ := List.nodup_cons.mp distinct
        obtain ⟨new, others⟩ := List.forall_mem_cons.mp unseen
        refine ⟨⟨by simpa using new, isValid_hint _ _⟩, names, rfl, distinct, fun other later old => ?_⟩
        rcases List.mem_cons.mp old with rfl | old
        · exact fresh later
        · exact others other later old
    | _ =>
      rw [ofPropositionItems, isValid_and]
      · simp only [isValid_error, Bool.false_eq_true, false_and, false_iff]
        rintro ⟨all, shown, -⟩
        obtain ⟨first, names, rfl, same, -⟩ := List.map_eq_cons_iff.mp shown.symm
        cases same
      · rintro name ⟨⟩

/-! ### Documents -/

/-- Targets are formulas, and so are the sources of steps where they are text; steps and propositions
may be left out. -/
structure Checked (limit : Option Nat) (document : Value) : Prop where
  targets : ∃ fs : List String, fs ≠ [] ∧ document.get "targets" = .list (fs.map .str) ∧
    ∀ f ∈ fs, ∃ t, Formula.parse limit f = .ok t
  steps : document.get "steps" = .null ∨ ∃ steps, document.get "steps" = .list steps ∧
    ∀ v ∈ steps, (∃ entries, v = .map entries) ∧ (v.get "rule").isTrue = true ∧
      ∃ items, v.get "from" = .list items ∧ ∀ w ∈ items, ReadsIfText limit w
  propositions : document.get "propositions" = .null ∨ ∃ names : List String,
    document.get "propositions" = .list (names.map .str) ∧ names.Nodup

theorem exists_texts {items : List Value} (h : ∀ v ∈ items, ∃ f, v = .str f) :
    ∃ fs : List String, items = fs.map .str := by
  induction items with
  | nil => exact ⟨[], rfl⟩
  | cons v items ih =>
    obtain ⟨⟨f, rfl⟩, rest⟩ := List.forall_mem_cons.mp h
    obtain ⟨fs, rfl⟩ := ih rest
    exact ⟨f :: fs, rfl⟩

theorem isValid_ofTargets {targets : Value} : (ofTargets targets).isValid = true ↔
    ∃ fs : List String, fs ≠ [] ∧ targets = .list (fs.map .str) ∧ ∀ f ∈ fs, f ≠ "" := by
  rw [ofTargets, isValid_and, isValid_require, isValid_all, List.forall_mem_map]
  constructor
  · rintro ⟨some, each⟩
    have texts : ∀ v ∈ itemsOf targets, ∃ f, v = .str f ∧ f ≠ "" := by
      intro v member
      obtain ⟨k, numbered⟩ := exists_mem_zipIdx member
      exact isValid_ofTarget.mp (each (v, k) numbered)
    unfold itemsOf at some texts
    split at some
    · obtain ⟨fs, rfl⟩ := exists_texts fun v member => (texts v member).imp fun f text => text.1
      refine ⟨fs, ?_, rfl, fun f member => ?_⟩
      · rintro rfl
        simp at some
      · obtain ⟨g, same, filled⟩ := texts (.str f) (List.mem_map_of_mem member)
        cases same
        exact filled
    · simp at some
  · rintro ⟨fs, some, rfl, filled⟩
    refine ⟨by simpa [itemsOf] using some, fun e member => ?_⟩
    obtain ⟨f, inside, same⟩ := List.mem_map.mp (List.fst_mem_of_mem_zipIdx member)
    exact isValid_ofTarget.mpr ⟨f, same.symm, filled f inside⟩

theorem isValid_ofSteps {steps : Value} : (ofSteps steps).isValid = true ↔
    steps = .null ∨ ∃ entries, steps = .list entries ∧ ∀ v ∈ entries, (∃ m, v = .map m) ∧
      (v.get "rule").isTrue = true ∧ ∃ items, v.get "from" = .list items := by
  unfold ofSteps
  split
  · simp
  · rename_i entries
    rw [isValid_all, List.forall_mem_map]
    constructor
    · intro each
      refine Or.inr ⟨entries, rfl, fun v member => ?_⟩
      obtain ⟨k, numbered⟩ := exists_mem_zipIdx member
      exact isValid_ofStep.mp (each (v, k) numbered)
    · rintro (none | ⟨_, same, each⟩) e member
      · cases none
      · cases same
        exact isValid_ofStep.mpr (each e.1 (List.fst_mem_of_mem_zipIdx member))
  · rename_i some other
    simp only [isValid_error, Bool.false_eq_true, false_iff]
    rintro (none | ⟨entries, same, -⟩)
    · exact some none
    · exact other entries same

theorem isValid_ofPropositions {propositions : Value} :
    (ofPropositions propositions).isValid = true ↔ propositions = .null ∨
      ∃ names : List String, propositions = .list (names.map .str) ∧ names.Nodup := by
  unfold ofPropositions
  split
  · simp
  · rename_i items
    rw [isValid_ofPropositionItems]
    constructor
    · rintro ⟨names, rfl, distinct, -⟩
      exact Or.inr ⟨names, rfl, distinct⟩
    · rintro (none | ⟨names, same, distinct⟩)
      · cases none
      · cases same
        exact ⟨names, rfl, distinct, by simp⟩
  · rename_i some other
    simp only [isValid_error, Bool.false_eq_true, false_iff]
    rintro (none | ⟨names, same, -⟩)
    · exact some none
    · exact other _ same

theorem filled_of_parse {f : String} {t : Formula} (parsed : Formula.parse limit f = .ok t) :
    f ≠ "" := by
  rintro rfl
  have empty : Formula.parse none "" = .error (.parse (.missingOperand none 0)) := by cbv
  rw [Formula.parse_none parsed] at empty
  cases empty

/-- A document without errors is one that is checked in every part. -/
theorem isValid_ofDocument {document : Value} :
    (ofDocument limit document).isValid = true ↔ Checked limit document := by
  unfold ofDocument
  simp only [isValid_all, List.forall_mem_cons, List.forall_mem_map, List.forall_mem_append,
    isValid_ofTargets, isValid_ofSteps, isValid_ofPropositions, isValid_ofFormulaValue]
  constructor
  · rintro ⟨⟨fs, some, listed, -⟩, steps, propositions, ⟨wanted, sources⟩, -⟩
    refine ⟨⟨fs, some, listed, fun f member => ?_⟩, ?_, propositions⟩
    · rw [listed] at wanted
      exact wanted (.str f) (List.mem_map_of_mem member) f rfl
    · refine steps.imp_right ?_
      rintro ⟨entries, listed, each⟩
      refine ⟨entries, listed, fun v member => ?_⟩
      obtain ⟨mapping, rule, items, named⟩ := each v member
      refine ⟨mapping, rule, items, named, fun w inside => sources w ?_⟩
      rw [sourcesOf, listed]
      exact List.mem_flatMap.mpr ⟨v, member, by rw [named]; exact inside⟩
  · rintro ⟨⟨fs, some, listed, reads⟩, steps, propositions⟩
    refine ⟨⟨fs, some, listed, fun f member => ?_⟩, ?_, propositions, ⟨?_, ?_⟩, by simp⟩
    · obtain ⟨t, parsed⟩ := reads f member
      exact filled_of_parse parsed
    · refine steps.imp_right ?_
      rintro ⟨entries, listed, each⟩
      refine ⟨entries, listed, fun v member => ?_⟩
      obtain ⟨mapping, rule, items, named, -⟩ := each v member
      exact ⟨mapping, rule, items, named⟩
    · rw [listed]
      rintro v member f rfl
      obtain ⟨g, inside, same⟩ := List.mem_map.mp member
      cases same
      exact reads f inside
    · intro w inside
      rcases steps with none | ⟨entries, listed, each⟩
      · rw [sourcesOf, none] at inside
        cases inside
      · rw [sourcesOf, listed] at inside
        obtain ⟨v, member, source⟩ := List.mem_flatMap.mp inside
        obtain ⟨-, -, items, named, readable⟩ := each v member
        rw [named] at source
        exact readable w source

end Premise.Validation
