import Premise.Derivation
import Premise.Proofs.Except
import Premise.Proofs.Formula.Truth
import Premise.Proofs.Text.Collection

/-!
What derivations hold and prove. Pushing a step adds its formulas and nothing else. Whether a
target is proved depends on the established formulas as a set, as long as each of them can be read.
-/
namespace Premise.Derivation

variable {s : Derivation}

/-! ### Pushing -/

@[simp] theorem push_facts (s : Derivation) (x : Step) : (s.push x).facts = s.facts := rfl
@[simp] theorem push_steps (s : Derivation) (x : Step) :
    (s.push x).steps = s.steps ++ [s.number x] := rfl
@[simp] theorem number_formulas (s : Derivation) (x : Step) :
    (s.number x).formulas = x.formulas := rfl

theorem push_formulas (s : Derivation) (x : Step) :
    (s.push x).formulas = s.formulas ++ x.formulas := by
  simp [formulas, List.append_assoc]

theorem mem_known {f : String} :
    f ∈ s.known ↔ ∃ g ∈ s.formulas, Formula.stripDoubleNegation g = f := by
  simp [known]

theorem push_known {x : Step} {f : String} (holds : x.formulas = [f])
    (new : Formula.stripDoubleNegation f ∉ s.known) :
    (s.push x).known = s.known ++ [Formula.stripDoubleNegation f] := by
  have kept : [Formula.stripDoubleNegation f].removeAll
      (s.formulas.map Formula.stripDoubleNegation) = [Formula.stripDoubleNegation f] := by
    rw [List.removeAll, List.filter_eq_self]
    intro g member
    rw [List.mem_singleton.mp member]
    simpa [← mem_known] using new
  rw [known, push_formulas, holds, List.map_append, List.map_singleton, List.eraseDups_append, kept]
  rfl

theorem mem_formulas_of_established {f : String} (member : f ∈ s.established) :
    f ∈ s.formulas := by
  rcases List.mem_append.mp member with fact | held
  · exact List.mem_append_left _ fact
  · obtain ⟨x, derived, inside⟩ := List.mem_flatMap.mp held
    exact List.mem_append_right _ (List.mem_flatMap.mpr ⟨x, (List.mem_filter.mp derived).1, inside⟩)

theorem available_iff {name : String} : s.available name = true ↔ name ∈ s.formulas := by
  simp [available, formulas]

/-- An identifier has no negation sign, so that its negation is the text with one in front. -/
theorem resolvable_iff {name : String} (h : isIdentifier name = true) :
    s.resolvable name = true ↔ name ∈ s.formulas ∨ "~" ++ name ∈ s.formulas := by
  unfold resolvable
  split
  · rename_i rest text
    exact absurd text (identifier_unsigned h rest)
  · rw [Bool.or_eq_true, available_iff, available_iff]

/-! ### Adding a fact or a premise -/

theorem mem_addFact_formulas {f g : String} :
    g ∈ (s.addFact f).formulas ↔ g ∈ s.formulas ∨ g = f := by
  simp only [formulas, addFact, List.mem_append, Text.mem_adjoin]
  exact or_right_comm

theorem mem_addFact_established {f g : String} :
    g ∈ (s.addFact f).established ↔ g ∈ s.established ∨ g = f := by
  simp only [established, addFact, List.mem_append, Text.mem_adjoin]
  exact or_right_comm

/-- A premise is held but not established. -/
theorem premise_established (f : String) :
    (s.push (Step.proposition f)).established = s.established := by
  have premise : (s.number (Step.proposition f)).isProposition = true := rfl
  simp [established, premise]

theorem push_established {x : Step} (derived : x.isProposition = false) :
    (s.push x).established = s.established ++ x.formulas := by
  have same : (s.number x).isProposition = false := derived
  simp [established, same, List.append_assoc]

/-! ### Tracking -/

/-- Names are tracked in order; those that were tracked already stay where they are. -/
theorem trackAll_eq (s : Derivation) (names : List String) :
    ∃ new, s.trackAll names = { s with missing := s.missing ++ new } ∧ new.Nodup ∧
      ∀ name, name ∈ new ↔ name ∈ names ∧ name ∉ s.missing := by
  have folded : s.trackAll names = { s with missing := names.foldl Text.adjoin s.missing } := by
    induction names generalizing s with
    | nil => rfl
    | cons first names ih => exact ih (s.trackMissing first)
  refine ⟨(names.removeAll s.missing).eraseDups, ?_, nodup_eraseDups _, fun name => ?_⟩
  · rw [folded, Text.foldl_adjoin]
  · exact Text.mem_removeAll

theorem trackAll_append (s : Derivation) (names more : List String) :
    s.trackAll (names ++ more) = (s.trackAll names).trackAll more :=
  List.foldl_append

theorem mem_trackAll {names : List String} {name : String} :
    name ∈ (s.trackAll names).missing ↔ name ∈ s.missing ∨ name ∈ names := by
  obtain ⟨new, tracked, -, members⟩ := trackAll_eq s names
  rw [tracked, List.mem_append, members]
  by_cases old : name ∈ s.missing <;> simp [old]

/-! ### Proving -/

theorem matches?_eq_ok {c text : String} {b : Bool} : s.matches? c text = .ok b ↔
    ∃ d, Formula.canonical s.limit text = .ok d ∧ b = (d == c) := by
  unfold matches?
  rw [bind_eq_ok]
  simp [pure, Except.pure, eq_comm]

theorem proves?_eq_ok {target : String} {b : Bool} : s.proves? target = .ok b ↔
    ∃ c, Formula.canonical s.limit target = .ok c ∧ s.established.anyM (s.matches? c) = .ok b :=
  bind_eq_ok

theorem proves?_eq_false {target : String} : s.proves? target = .ok false ↔
    ∃ c, Formula.canonical s.limit target = .ok c ∧
      ∀ f ∈ s.established, ∃ d, Formula.canonical s.limit f = .ok d ∧ d ≠ c := by
  simp only [proves?_eq_ok, anyM_eq_false, matches?_eq_ok, eq_comm (a := false), beq_eq_false_iff_ne]

/-- Whether a target is proved can be told where all that is established can be read. -/
theorem proves?_decided {target c : String} (read : Formula.canonical s.limit target = .ok c)
    (readable : ∀ f ∈ s.established, ∃ d, Formula.canonical s.limit f = .ok d) :
    ∃ b, s.proves? target = .ok b := by
  have all : ∀ f ∈ s.established, ∃ b, s.matches? c f = .ok b := by
    intro f member
    obtain ⟨d, read'⟩ := readable f member
    exact ⟨d == c, matches?_eq_ok.mpr ⟨d, read', rfl⟩⟩
  obtain ⟨b, found⟩ := anyM_total all
  exact ⟨b, proves?_eq_ok.mpr ⟨c, read, found⟩⟩

theorem exists_of_proves? {target : String} (h : s.proves? target = .ok true) :
    ∃ f ∈ s.established, ∃ c, Formula.canonical s.limit f = .ok c ∧
      Formula.canonical s.limit target = .ok c := by
  obtain ⟨c, read, found⟩ := proves?_eq_ok.mp h
  obtain ⟨f, member, passes⟩ := exists_of_anyM found
  obtain ⟨d, read', same⟩ := matches?_eq_ok.mp passes
  have same : d = c := by simpa using same
  exact ⟨f, member, c, same ▸ read', read⟩

/-- The names that are missing for a formula are the atoms of it that are not settled. -/
theorem unresolved_eq_ok {target : String} {names : List String} : s.unresolved target = .ok names ↔
    ∃ atoms, Formula.atomsOf s.limit target = .ok atoms ∧
      names = atoms.filter (!s.resolvable ·) := by
  -- An atom has no negation sign that could be taken off.
  have whole {atoms : List String} (named : Formula.atomsOf s.limit target = .ok atoms) :
      ((atoms.filter (!s.resolvable ·)).map fun name =>
        String.ofList (name.toList.dropWhile (· == '~'))) = atoms.filter (!s.resolvable ·) := by
    refine (List.map_congr_left fun name member => ?_).trans (List.map_id _)
    obtain ⟨c, rest, chars, letter⟩ :=
      identifier_front (Formula.identifier_of_atomsOf named (List.mem_filter.mp member).1)
    have unsigned : name.toList.dropWhile (· == '~') = name.toList := by
      rw [chars, List.dropWhile_cons_of_neg]
      intro sign
      cases beq_iff_eq.mp sign
      cases letter
    rw [unsigned, String.ofList_toList]
    rfl
  unfold unresolved
  rw [bind_eq_ok]
  constructor
  · rintro ⟨atoms, named, h⟩
    cases h
    exact ⟨atoms, named, whole named⟩
  · rintro ⟨atoms, named, rfl⟩
    exact ⟨atoms, named, congrArg Except.ok (whole named)⟩

theorem unresolved_eq_nil {target : String} {names : List String}
    (named : Formula.atomsOf s.limit target = .ok names)
    (settled : ∀ name ∈ names, s.resolvable name = true) : s.unresolved target = .ok [] := by
  refine unresolved_eq_ok.mpr ⟨names, named, Eq.symm ?_⟩
  rw [List.filter_eq_nil_iff]
  intro name member
  simp [settled name member]

/-! ### Without a limit on nesting -/

theorem canonical_total {limit : Option Nat} {text : String} (unlimited : limit = none)
    (reads : Formula.Reads text) : ∃ c, Formula.canonical limit text = .ok c := by
  obtain ⟨t, parsed⟩ := reads
  subst unlimited
  exact ⟨t.normalize.render, Formula.canonical_of_parse parsed⟩

theorem proves?_total {target : String} (unlimited : s.limit = none)
    (reads : Formula.Reads target) (readable : ∀ f ∈ s.formulas, Formula.Reads f) :
    ∃ b, s.proves? target = .ok b := by
  obtain ⟨c, read⟩ := canonical_total unlimited reads
  refine proves?_decided read fun f member => ?_
  exact canonical_total unlimited (readable f (mem_formulas_of_established member))

theorem unresolved_total {target : String} (unlimited : s.limit = none)
    (reads : Formula.Reads target) : ∃ names, s.unresolved target = .ok names := by
  obtain ⟨t, parsed⟩ := reads
  have named : Formula.atomsOf s.limit target = .ok t.normalize.atoms := by
    rw [unlimited]
    exact Formula.atomsOf_ok parsed
  exact ⟨_, unresolved_eq_ok.mpr ⟨_, named, rfl⟩⟩

/-! ### A single fact -/

/-- One known fact and a step that refers to it. -/
def ofName (name : String) : Derivation where
  facts := [name]
  steps := [{ Step.ofFact name with index := some 0 }]
  limit := none

theorem ofName_formulas (name : String) : (ofName name).formulas = [name, name] := rfl

theorem ofName_readable {name : String} (h : isIdentifier name = true) :
    ∀ f ∈ (ofName name).formulas, Formula.Reads f := by
  intro f member
  have same : f = name := by simpa [ofName_formulas] using member
  subst same
  exact ⟨.atom f, Formula.parse_render (Formula.proper_atom.mpr h)⟩

theorem ofName_limit (name : String) : (ofName name).limit = none := rfl

theorem ofName_unproved {name : String} {t : Formula} (h : isIdentifier name = true)
    (proper : t.Proper) (other : name ≠ t.normalize.render) :
    (ofName name).proves? t.render = .ok false := by
  have own := Formula.canonical_of_parse (Formula.parse_render (Formula.proper_atom.mpr h))
  rw [Formula.normalize, Formula.render] at own
  rw [proves?_eq_false, ofName_limit]
  refine ⟨t.normalize.render, Formula.canonical_of_parse (Formula.parse_render proper),
    fun f member => ⟨name, ?_, other⟩⟩
  have same : f = name := by simpa [ofName_formulas] using mem_formulas_of_established member
  rw [same, own]

theorem ofName_resolved {name : String} {t : Formula} (proper : t.Proper)
    (own : ∀ leaf ∈ t.leaves, leaf = name) : (ofName name).unresolved t.render = .ok [] := by
  have named : Formula.atomsOf (ofName name).limit t.render = .ok t.normalize.atoms := by
    rw [ofName_limit]
    exact Formula.atomsOf_ok (Formula.parse_render proper)
  refine unresolved_eq_nil named fun leaf member => ?_
  have inside : leaf ∈ t.leaves := by
    rw [← Formula.leaves_normalize]
    exact List.mem_eraseDups.mp member
  simp [own leaf inside, resolvable, available, ofName]

end Premise.Derivation
