import Premise.Proofs.Rule.Composition
import Premise.Proofs.Search.Widening

/-!
Targets without a connective at the root: names, their negations, and negations of anything else.
What a round adds has a connective at the root, however its texts group, so that a search proves such
a target only where it was proved before. Main statement: `search_proves_compounds_only`.
-/
namespace Premise

variable {limit : Option Nat} {f c target : String} {t : Formula}

namespace Formula

/-- A connective stands at the root, and no negation over it. -/
def isCompound : Formula → Bool
  | binary _ _ _ => true
  | _ => false

/-- However the joined texts group, they make no single operand. -/
theorem Joined.compound (joined : Joined f) : ∃ op l r, parse none f = .ok (.binary op l r) := by
  obtain ⟨op, a, b, ⟨l, left⟩, ⟨r, right⟩, rfl⟩ := joined
  obtain ⟨ws, us, t, -, derived, -, derived', read, whole⟩ := joinText_derives op left right
  rcases whole.operand_or_split with single | ⟨op', us', vs', l', r', -, rfl, -, -⟩
  · exact absurd rfl (single.operand_unsplit derived.phrase.1 derived'.phrase.1)
  · exact ⟨op', l', r', read⟩

theorem Joined.means_compound (joined : Joined f) (means : canonical limit f = .ok c)
    (parsed : parse none target = .ok t) (means' : canonical limit target = .ok c) :
    t.normalize.isCompound = true := by
  obtain ⟨op, l, r, read⟩ := joined.compound
  rw [← normalize_eq_of_canonical means means' read parsed]
  rfl

end Formula

namespace Derivation

variable {s u : Derivation} {fs : List String}

theorem Grown.proves_no_simple (grown : Grown s fs u) (joined : ∀ f ∈ fs, Formula.Joined f)
    (parsed : Formula.parse none target = .ok t) (simple : t.normalize.isCompound = false)
    (unproved : s.proves? target = .ok false) : u.proves? target ≠ .ok true := by
  intro proves
  obtain ⟨f, member, c, means, means'⟩ := exists_of_proves? proves
  rw [grown.limit] at means means'
  rw [grown.established] at member
  rcases List.mem_append.mp member with old | added
  · exact not_unproved old means means' unproved
  · have compound := (joined f added).means_compound means parsed means'
    rw [simple] at compound
    cases compound

/-- Where the root of a target is no connective, a search proves the target exactly if it was proved
before, whatever the bounds. If it was not, then no rounds lead to a state that proves it. Without a
limit on nesting the search always ends. -/
theorem search_proves_compounds_only (s : Derivation) (target : String) (t : Formula)
    (limits : Limits) (readable : ∀ f ∈ s.formulas, Formula.Reads f)
    (parsed : Formula.parse none target = .ok t) (simple : t.normalize.isCompound = false) :
    (s.limit = none → ∃ r, s.search target limits = .ok r) ∧
    (∀ r, s.search target limits = .ok r → (r.proven = true ↔ s.proves? target = .ok true)) ∧
    (s.proves? target = .ok true →
      s.search target limits = .ok { halt := .alreadyProved, state := some s }) ∧
    (s.proves? target = .ok false →
      ∀ maxSteps n u, Chain maxSteps s n u → u.proves? target ≠ .ok true) := by
  have never : s.proves? target = .ok false →
      ∀ maxSteps n u, Chain maxSteps s n u → u.proves? target ≠ .ok true := by
    intro unproved maxSteps n u chain
    obtain ⟨fs, -, grown, novel⟩ := chain.grown readable
    exact grown.proves_no_simple novel.joined parsed simple unproved
  refine ⟨fun unlimited => search_total unlimited readable ⟨t, parsed⟩, ?_, ?_, never⟩
  · intro r found
    rcases search_ends found with ⟨proved, rfl⟩ | ⟨names, unproved, -, -, rfl⟩ | ⟨unproved, -⟩
    · exact iff_of_true rfl proved
    · simp [SearchResult.proven, unproved]
    · refine iff_of_false (fun proven => ?_) (by simp [unproved])
      obtain ⟨u, state⟩ := Option.isSome_iff_exists.mp proven
      obtain ⟨chain, proves, -⟩ := search_proven found state
      exact never unproved limits.maxSteps r.depth u chain proves
  · intro proved
    rw [search, settled?, proved]
    rfl

theorem negated_conjunction_unproven : (ofName "p").proves? "~(p & p)" = .ok false ∧
    ∃ r, (ofName "p").search "~(p & p)" {} = .ok r ∧ r.proven = false := by
  have parsed : Formula.parse none "~(p & p)" = .ok (.neg (.binary .and (.atom "p") (.atom "p"))) := by
    cbv
  have unproved : (ofName "p").proves? "~(p & p)" = .ok false := by cbv
  obtain ⟨total, only, -⟩ := search_proves_compounds_only (ofName "p") "~(p & p)" _ {}
    (ofName_readable (by decide)) parsed rfl
  obtain ⟨r, found⟩ := total (ofName_limit "p")
  refine ⟨unproved, r, found, Bool.eq_false_iff.mpr fun proven => ?_⟩
  rw [unproved] at only
  cases (only r found).mp proven

end Derivation

end Premise
