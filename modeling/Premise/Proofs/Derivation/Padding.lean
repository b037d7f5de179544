import Premise.Proofs.Derivation.Knowledge
import Premise.Proofs.Formula.Height

/-!
Facts that nothing asks for. Facts are names and their negations, and one over a name that a formula
does not mention neither settles an atom of the formula nor proves it. Main statements:
`Padded.unresolved` and `Padded.proves?`.
-/
namespace Premise

variable {used facts more : List String} {limit : Option Nat} {name name' text target : String}

/-- A name or its negation, as facts are written. -/
def Literal (name text : String) : Prop :=
  isIdentifier name = true ∧ (text = name ∨ text = "~" ++ name)

namespace Literal

theorem tree (h : Literal name text) : ∃ t : Formula,
    t.Proper ∧ t.normalize = t ∧ t.render = text ∧ t.leaves = [name] ∧ t.height = 0 := by
  obtain ⟨identifier, rfl | rfl⟩ := h
  · exact ⟨.atom text, Formula.proper_atom.mpr identifier, rfl, rfl, rfl, rfl⟩
  · exact ⟨.neg (.atom name), Formula.proper_atom.mpr identifier, rfl, rfl, rfl, rfl⟩

theorem canonical (h : Literal name text) : Formula.canonical limit text = .ok text := by
  obtain ⟨t, proper, normal, rfl, -, height⟩ := h.tree
  have read : Formula.read limit t.render = .ok t.normalize :=
    Formula.read_render_within proper fun n _ => by omega
  rw [Formula.canonical, read, normal]
  rfl

theorem reads (h : Literal name text) : Formula.Reads text := by
  obtain ⟨t, proper, -, rfl, -⟩ := h.tree
  exact ⟨t, Formula.parse_render proper⟩

theorem unique (h : Literal name text) (h' : Literal name' text) : name = name' := by
  obtain ⟨t, proper, -, shown, leaves, -⟩ := h.tree
  obtain ⟨t', proper', -, shown', leaves', -⟩ := h'.tree
  obtain rfl := Formula.render_injective proper proper' (shown.trans shown'.symm)
  simpa using leaves.symm.trans leaves'

/-- A literal stands in no parentheses, and no pair of negation signs stands at its front. -/
theorem front (h : Literal name text) :
    (∃ c rest, text.toList = c :: rest ∧ '(' < c) ∧ Formula.stripDoubleNegation text = text := by
  obtain ⟨c, rest, chars, letter⟩ := identifier_front h.1
  have late : '(' < c := by
    have range := (letter_range letter).1
    show 40 < c.toNat
    omega
  have sign : c ≠ '~' := by
    rintro rfl
    cases letter
  obtain ⟨-, rfl | rfl⟩ := h
  · refine ⟨⟨c, rest, chars, late⟩, Formula.strip_unpaired fun more signs => ?_⟩
    rw [chars] at signs
    exact sign (List.cons.inj signs).1
  · have negated : ("~" ++ name).toList = '~' :: c :: rest := by simp [chars]
    refine ⟨⟨'~', c :: rest, negated, by decide⟩, Formula.strip_unpaired fun more signs => ?_⟩
    rw [negated] at signs
    exact sign (List.cons.inj (List.cons.inj signs).2).1

end Literal

/-! ### Formulas in use -/

/-- Every name that the formula mentions is in use. -/
def Formula.Uses (used : List String) (limit : Option Nat) (text : String) : Prop :=
  ∀ names, atomsOf limit text = .ok names → ∀ name ∈ names, name ∈ used

theorem Literal.in_use (h : Literal name text) (uses : Formula.Uses used limit target)
    (same : Formula.canonical limit target = .ok text) : name ∈ used := by
  obtain ⟨t, proper, -, shown, leaves, -⟩ := h.tree
  cases read : Formula.read limit target with
  | error e => simp [Formula.canonical, read, Except.map] at same
  | ok u =>
    have named : Formula.atomsOf limit target = .ok u.atoms := by
      simp [Formula.atomsOf, read, Except.map]
    obtain ⟨v, parsed, rfl⟩ := Formula.read_ok read
    have proper' := Formula.proper_normalize (Formula.proper_of_parse parsed)
    have rendered : v.normalize.render = text := by
      simpa [Formula.canonical, read, Except.map] using same
    obtain rfl := Formula.render_injective proper proper' (shown.trans rendered.symm)
    exact uses _ named name (by simp [Formula.atoms, leaves])

/-- More facts, all of them literals, and what is more is over names that are not in use. -/
structure Padded (used facts more : List String) : Prop where
  kept : ∀ g ∈ facts, g ∈ more
  literal : ∀ g ∈ more, ∃ name, Literal name g
  idle : ∀ g ∈ more, g ∈ facts ∨ ∃ name, name ∉ used ∧ Literal name g

theorem Padded.mem_iff (padded : Padded used facts more)
    (inUse : ∀ name, Literal name text → name ∈ used) : text ∈ more ↔ text ∈ facts := by
  constructor
  · intro member
    rcases padded.idle text member with old | ⟨name, unused, literal⟩
    · exact old
    · exact absurd (inUse name literal) unused
  · exact padded.kept text

theorem Padded.mem_of_name (padded : Padded used facts more) (literal : Literal name text)
    (inUse : name ∈ used) : text ∈ more ↔ text ∈ facts :=
  padded.mem_iff fun _ literal' => literal.unique literal' ▸ inUse

theorem Padded.mem_of_uses (padded : Padded used facts more)
    (uses : Formula.Uses used limit text) : text ∈ more ↔ text ∈ facts :=
  padded.mem_iff fun _ literal => literal.in_use uses literal.canonical

namespace Derivation

def knowing (s : Derivation) (facts : List String) : Derivation :=
  { s with facts := facts }

@[simp] theorem knowing_facts (s : Derivation) (more : List String) :
    (s.knowing more).facts = more := rfl
@[simp] theorem knowing_steps (s : Derivation) (more : List String) :
    (s.knowing more).steps = s.steps := rfl
@[simp] theorem knowing_limit (s : Derivation) (more : List String) :
    (s.knowing more).limit = s.limit := rfl

theorem knowing_formulas (s : Derivation) (more : List String) :
    (s.knowing more).formulas = more ++ s.steps.flatMap (·.formulas) := rfl

theorem knowing_trackAll (s : Derivation) (more names : List String) :
    (s.knowing more).trackAll names = (s.trackAll names).knowing more := by
  induction names generalizing s with
  | nil => rfl
  | cons first names ih => exact ih (s.trackMissing first)

end Derivation

namespace Padded

variable {s : Derivation}

theorem resolvable (padded : Padded used s.facts more) (identifier : isIdentifier name = true)
    (inUse : name ∈ used) : (s.knowing more).resolvable name = s.resolvable name := by
  have positive : name ∈ more ↔ name ∈ s.facts := padded.mem_of_name ⟨identifier, Or.inl rfl⟩ inUse
  have negative : "~" ++ name ∈ more ↔ "~" ++ name ∈ s.facts :=
    padded.mem_of_name ⟨identifier, Or.inr rfl⟩ inUse
  rw [Bool.eq_iff_iff, Derivation.resolvable_iff identifier, Derivation.resolvable_iff identifier,
    Derivation.knowing_formulas, Derivation.formulas]
  simp only [List.mem_append, positive, negative]

theorem unresolved (padded : Padded used s.facts more)
    (uses : Formula.Uses used s.limit text) :
    (s.knowing more).unresolved text = s.unresolved text := by
  unfold Derivation.unresolved
  rw [Derivation.knowing_limit]
  cases named : Formula.atomsOf s.limit text with
  | error e => rfl
  | ok names =>
    have same : names.filter (!(s.knowing more).resolvable ·) = names.filter (!s.resolvable ·) := by
      apply List.filter_congr
      intro name member
      have identifier := Formula.identifier_of_atomsOf named member
      rw [padded.resolvable identifier (uses names named name member)]
    simp only [bind, Except.bind, same]

/-- Facts can all be read, so that to look through them does not fail. -/
theorem anyM_facts (literal : ∀ g ∈ facts, ∃ name, Literal name g) (c : String)
    (rest : List String) :
    (facts ++ rest).anyM (s.matches? c) =
      if c ∈ facts then .ok true else rest.anyM (s.matches? c) := by
  induction facts with
  | nil => rfl
  | cons g facts ih =>
    obtain ⟨⟨name, first⟩, others⟩ := List.forall_mem_cons.mp literal
    have read : s.matches? c g = .ok (g == c) :=
      Derivation.matches?_eq_ok.mpr ⟨g, first.canonical, rfl⟩
    rw [List.cons_append, List.anyM_cons, read]
    by_cases same : g = c
    · subst same
      simp [bind, Except.bind, pure, Except.pure]
    · have ih := ih others
      simp [bind, Except.bind, same, Ne.symm same, ih]

theorem proves? (padded : Padded used s.facts more) (uses : Formula.Uses used s.limit target) :
    (s.knowing more).proves? target = s.proves? target := by
  unfold Derivation.proves?
  rw [Derivation.knowing_limit]
  cases read : Formula.canonical s.limit target with
  | error e => rfl
  | ok c =>
    have same : c ∈ more ↔ c ∈ s.facts :=
      padded.mem_iff fun _ literal => literal.in_use uses read
    have literal : ∀ g ∈ s.facts, ∃ name, Literal name g :=
      fun g member => padded.literal g (padded.kept g member)
    have first := anyM_facts (s := s) padded.literal c
      ((s.steps.filter (!·.isProposition)).flatMap (·.formulas))
    have second := anyM_facts (s := s) literal c
      ((s.steps.filter (!·.isProposition)).flatMap (·.formulas))
    simp only [same] at first
    exact first.trans second.symm

end Padded

end Premise
