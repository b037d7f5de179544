import Premise.Proofs.Scenario.Loading

/-!
Which documents are read without failure, and what the derivation that a scenario starts from holds.
Main statements: `sources?_some_iff`, `referencedAtoms_reads` and `mem_start_steps`.
-/
namespace Premise

variable {number : Nat} {v document : Value} {fs : List String}

namespace Document

/-- A list of formulas is read where all of it is text. -/
theorem formulaItems_ok_iff {entry : String} {i : Nat} {items : List Value} :
    formulaItems entry i items = .ok fs ↔ items = fs.map .str := by
  induction items generalizing i fs with
  | nil =>
    unfold formulaItems
    constructor
    · rintro ⟨⟩
      rfl
    · intro same
      rw [List.map_eq_nil_iff.mp same.symm]
  | cons v rest ih =>
    constructor
    · intro h
      cases v with
      | str f =>
        rw [formulaItems] at h
        split at h
        · rename_i gs read
          cases h
          rw [List.map_cons, ih.mp read]
        · cases h
      | _ => cases h
    · intro same
      obtain ⟨f, gs, rfl, rfl, rfl⟩ := List.map_eq_cons_iff.mp same.symm
      rw [formulaItems, ih.mpr rfl]

theorem formulaList_list {entry : String} {items : List Value} :
    formulaList entry (.list items) = .ok fs ↔ items = fs.map .str := by
  rw [formulaList, mapError_eq_ok, formulaItems_ok_iff]

theorem sources?_some_iff : sources? number v = .ok (some fs) ↔
    (∃ entries, v = .map entries) ∧ v.get "from" = .list (fs.map .str) := by
  unfold sources?
  split
  · rename_i entries items named
    rw [named]
    constructor
    · intro h
      cases read : formulaList ("step #" ++ toString number ++ " from") (.list items) with
      | error e =>
        rw [read] at h
        cases h
      | ok gs =>
        rw [read] at h
        cases h
        rw [formulaList_list.mp read]
        exact ⟨⟨entries, rfl⟩, rfl⟩
    · rintro ⟨-, same⟩
      cases same
      rw [formulaList_list.mpr rfl]
      rfl
  · rename_i other
    constructor
    · rintro ⟨⟩
    · rintro ⟨⟨entries, rfl⟩, named⟩
      exact absurd named (other entries _ rfl)

theorem sources?_none_iff : sources? number v = .ok none ↔
    ∀ entries items, v = .map entries → v.get "from" ≠ .list items := by
  constructor
  · intro h
    unfold sources? at h
    split at h
    · rename_i items _
      cases listed : formulaList ("step #" ++ toString number ++ " from") (.list items) with
      | error e =>
        rw [listed] at h
        cases h
      | ok fs =>
        rw [listed] at h
        cases h
    · rename_i other
      exact fun entries items same named => other entries items same named
  · intro other
    unfold sources?
    split
    · rename_i entries items named
      exact absurd named (other entries items rfl)
    · rfl

theorem atomsOfAll_total (readable : ∀ f ∈ fs, Formula.Reads f) :
    ∃ atoms, atomsOfAll none fs = .ok atoms := by
  have each : ∀ f ∈ fs, ∃ atoms, atomsOfFormula none f = .ok atoms := by
    intro f member
    obtain ⟨t, parsed⟩ := readable f member
    exact ⟨_, mapError_eq_ok.mpr (Formula.atomsOf_ok parsed)⟩
  obtain ⟨lists, read⟩ := mapM_total each
  exact ⟨lists.flatten, bind_eq_ok.mpr ⟨lists, read, rfl⟩⟩

/-- The number of an entry stands in errors alone. -/
theorem sources?_number {r : Option (List String)} (named : sources? number v = .ok r) (k : Nat) :
    sources? k v = .ok r := by
  cases r with
  | some fs => exact sources?_some_iff.mpr (sources?_some_iff.mp named)
  | none => exact sources?_none_iff.mpr (sources?_none_iff.mp named)

theorem atomsOfAll_reads {limit : Option Nat} {atoms : List String}
    (gathered : atomsOfAll limit fs = .ok atoms) : ∀ f ∈ fs, Formula.Reads f := by
  obtain ⟨lists, each, -⟩ := bind_eq_ok.mp gathered
  intro f member
  obtain ⟨names, -, named⟩ := mapM_ok_mem each f member
  have named := mapError_eq_ok.mp named
  unfold Formula.atomsOf at named
  cases read : Formula.read limit f with
  | error e =>
    rw [read] at named
    cases named
  | ok u =>
    obtain ⟨t, parsed, -⟩ := Formula.read_ok read
    exact ⟨t, Formula.parse_none parsed⟩

/-- Where the atoms of a document can be gathered, each entry names formulas that can be read, or it
names none. -/
theorem referencedAtoms_reads {limit : Option Nat} {used : List String} {entries : List Value}
    (gathered : referencedAtoms limit document = .ok used)
    (listed : stepEntries document = .ok entries) : ∀ v ∈ entries, ∀ number,
      ∃ r, sources? number v = .ok r ∧ ∀ fs, r = some fs → ∀ f ∈ fs, Formula.Reads f := by
  obtain ⟨-, entries', lists, -, -, -, listed', each, -⟩ := referencedAtoms_ok_iff.mp gathered
  cases listed.symm.trans listed'
  intro v member number
  obtain ⟨i, here⟩ := List.mem_iff_getElem?.mp member
  have numbered : (v, 1 + i) ∈ entries.zipIdx 1 :=
    List.mk_mem_zipIdx_iff_le_and_getElem?_sub.mpr ⟨by omega, by simpa using here⟩
  obtain ⟨atoms, -, gathered⟩ := mapM_ok_mem each _ numbered
  obtain ⟨r, named, gathered⟩ := bind_eq_ok.mp gathered
  refine ⟨r, sources?_number named number, ?_⟩
  rintro fs rfl
  exact atomsOfAll_reads gathered

end Document

/-! ### Entries -/

theorem Entry.read_some_iff {speaker : Speaker} {e : Entry} :
    (Entry.read speaker number v).result = .ok (some e) ↔
      ∃ sources, Document.sources? number v = .ok (some sources) ∧
        e = ⟨number, v.get "rule", v.get "subtype", sources⟩ := by
  rw [Entry.read_result]
  cases Document.sources? number v with
  | error failure => simp [Except.map]
  | ok r => cases r <;> simp [Except.map, eq_comm]

theorem Entry.read_none_iff {speaker : Speaker} : (Entry.read speaker number v).result = .ok none ↔
    Document.sources? number v = .ok none := by
  rw [Entry.read_result]
  cases Document.sources? number v with
  | error failure => simp [Except.map]
  | ok r => cases r <;> simp [Except.map]

/-! ### Scenarios -/

namespace Scenario

theorem start_steps (limit : Option Nat) (resolutions : List (String × Bool))
    (propositions : List String) : (start limit resolutions propositions).steps =
      propositions.zipIdx.map fun p => { Step.proposition p.1 with index := some p.2 } := by
  rw [start_arena]

/-- A step of the start stands for a proposition, and each proposition has one. -/
theorem mem_start_steps {limit : Option Nat} {resolutions : List (String × Bool)}
    {propositions : List String} {x : Step} :
    x ∈ (start limit resolutions propositions).steps ↔
      ∃ p i, (p, i) ∈ propositions.zipIdx ∧ x = { Step.proposition p with index := some i } := by
  rw [start_steps, List.mem_map]
  constructor
  · rintro ⟨⟨p, i⟩, member, rfl⟩
    exact ⟨p, i, member, rfl⟩
  · rintro ⟨p, i, member, rfl⟩
    exact ⟨(p, i), member, rfl⟩

end Scenario

end Premise
