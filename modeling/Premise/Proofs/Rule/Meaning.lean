import Premise.Proofs.Formula.DoubleNegation
import Premise.Proofs.Formula.Truth
import Premise.Proofs.Rule.Inference

/-!
What the conclusions of inferences mean. Double negation keeps the meaning of its input. All other
inferences put two formulas together, and whatever the texts they are given, what they make means no
atom. Main statements: `conclude_meaning` and `conclude_reads`.
-/
namespace Premise

variable {limit : Option Nat} {op : Connective} {a b c f : String} {fs : List String}

/-! ### Connectives are words of their own -/

def connectiveSigns : List Char :=
  ['∧', '∨', '→', '↔']

theorem symbol_mem (op : Connective) : ∃ sign ∈ connectiveSigns, sign ∈ op.symbol.toList := by
  cases op with
  | and => exact ⟨'∧', by decide, by decide⟩
  | or => exact ⟨'∨', by decide, by decide⟩
  | implies => exact ⟨'→', by decide, by decide⟩
  | iff => exact ⟨'↔', by decide, by decide⟩

theorem ofSymbol_rest {cs rest : List Char} {found : Operator} {sign : Char}
    (sort : sign ∈ connectiveSigns) (cut : Operator.ofSymbol? cs = some (found, rest))
    (inside : sign ∈ cs) : sign ∈ rest ∨ ∃ op, found = .connective op := by
  have unlike : ∀ sign ∈ connectiveSigns, sign ≠ '~' ∧ sign ≠ '!' := by simp [connectiveSigns]
  obtain ⟨tilde, bang⟩ := unlike sign sort
  unfold Operator.ofSymbol? at cut
  split at cut <;> cases cut
  all_goals first
    | exact Or.inr ⟨_, rfl⟩
    | exact Or.inl (by simpa [tilde, bang] using inside)

theorem Spells.connective {cs : List Char} {ws : List Word} (h : Spells cs ws) {sign : Char}
    (sort : sign ∈ connectiveSigns) (inside : sign ∈ cs) :
    ∃ op, Word.operator (.connective op) ∈ ws := by
  have kinds : ∀ sign ∈ connectiveSigns, Text.isBlank sign = false ∧ sign ≠ '(' ∧ sign ≠ ')' ∧
      isIdentifierChar sign = false := by
    intro sign member
    simp only [connectiveSigns, List.mem_cons, List.not_mem_nil, or_false] at member
    rcases member with rfl | rfl | rfl | rfl <;> decide
  obtain ⟨visible, noOpen, noClose, noName⟩ := kinds sign sort
  have behind : ∀ {w : Word} {ws : List Word},
      (∃ op, Word.operator (.connective op) ∈ ws) →
        ∃ op, Word.operator (.connective op) ∈ w :: ws := fun ⟨op, member⟩ =>
    ⟨op, List.mem_cons_of_mem _ member⟩
  induction h with
  | nil => cases inside
  | blank blank _ ih =>
    refine ih ((List.mem_cons.mp inside).resolve_left fun same => ?_)
    rw [same, blank] at visible
    cases visible
  | leftParen _ ih => exact behind (ih ((List.mem_cons.mp inside).resolve_left noOpen))
  | rightParen _ ih => exact behind (ih ((List.mem_cons.mp inside).resolve_left noClose))
  | symbol cut _ ih =>
    rcases ofSymbol_rest sort cut inside with later | ⟨op, rfl⟩
    · exact behind (ih later)
    · exact ⟨op, by simp⟩
  | @run first more rest ws letter name _ _ ih =>
    have outside : sign ∉ first :: more := by
      intro member
      have taken : isIdentifierChar sign = true := by
        rcases List.mem_cons.mp member with rfl | later
        · exact identifierChar_of_letter letter
        · exact name sign later
      rw [taken] at noName
      cases noName
    rw [← List.cons_append] at inside
    exact behind (ih ((List.mem_append.mp inside).resolve_left outside))

/-- A connective joins two operands, and each has an atom. -/
theorem Derives.two_leaves {k : Category} {ws : List Word} {t : Formula} (h : Derives k ws t)
    (inside : Word.operator (.connective op) ∈ ws) : 2 ≤ t.leaves.length := by
  have joined (op : Connective) (l r : Formula) : 2 ≤ (Formula.binary op l r).leaves.length := by
    have left := l.leaves_pos
    have right := r.leaves_pos
    rw [Formula.leaves, List.length_append]
    omega
  induction h with
  | identifier name => simp at inside
  | parenthesized _ ih => exact ih (by simpa using inside)
  | not _ ih => exact ih (by simpa using inside)
  | and => exact joined _ _ _
  | or => exact joined _ _ _
  | implies => exact joined _ _ _
  | iff => exact joined _ _ _
  | primary _ ih => exact ih inside
  | negation _ ih => exact ih inside
  | conjunction _ ih => exact ih inside
  | disjunction _ ih => exact ih inside
  | implication _ ih => exact ih inside

namespace Formula

/-- Joined texts mean no leaf, not even where the texts cannot be read by themselves. -/
theorem canonical_joinText_ne {t : Formula} (proper : t.Proper) (single : t.leaves.length = 1) :
    canonical limit (joinText op a b) ≠ .ok t.render := by
  intro means
  obtain ⟨u, parsed, same⟩ := canonical_ok means
  obtain ⟨ws, spelled, derived⟩ := parse_ok_iff.mp (parse_none parsed)
  obtain rfl := render_injective proper (proper_normalize (proper_of_parse parsed)) same
  obtain ⟨sign, sort, inside⟩ := symbol_mem op
  obtain ⟨op', joins⟩ := spelled.connective sort (by simp [joinText_toList, inside])
  have two := derived.two_leaves joins
  rw [leaves_normalize] at single
  omega

/-! ### Joined formulas -/

/-- Two readable texts with a connective between them, in parentheses. -/
def Joined (text : String) : Prop :=
  ∃ op a b, Reads a ∧ Reads b ∧ text = joinText op a b

theorem Joined.reads {text : String} (h : Joined text) : Reads text := by
  obtain ⟨op, a, b, left, right, rfl⟩ := h
  exact joinText_reads op left right

theorem contrapositive_joined {text f : String}
    (h : Inference.contrapositive limit text = .ok f) : Joined f := by
  obtain ⟨a, c, read, rfl⟩ := Inference.contrapositive_ok_iff.mp h
  obtain ⟨t, parsed, same⟩ := read_ok read
  have proper := proper_normalize (proper_of_parse parsed)
  rw [← same, proper_binary] at proper
  exact ⟨.implies, _, _, ⟨.neg c, parse_render (proper_neg.mpr proper.2)⟩,
    ⟨.neg a, parse_render (proper_neg.mpr proper.1)⟩, rfl⟩

end Formula

/-! ### Conclusions -/

namespace Inference

theorem doubled_cases (a : String) : doubled a = a ∨ doubled a = "~~" ++ a := by
  unfold doubled
  split
  · exact Or.inl rfl
  · exact Or.inr rfl

theorem halved_cases (a : String) : halved a = a ∨ a = "~~" ++ halved a := by
  unfold halved
  split
  · rename_i rest chars
    exact Or.inr (String.toList_inj.mp (by simp [chars]))
  · exact Or.inl rfl

theorem canonical_doubled :
    Formula.canonical limit (doubled a) = .ok c ↔ Formula.canonical limit a = .ok c := by
  rcases doubled_cases a with same | signed
  · rw [same]
  · rw [signed]
    exact Formula.canonical_doubled

theorem canonical_halved :
    Formula.canonical limit (halved a) = .ok c ↔ Formula.canonical limit a = .ok c := by
  rcases halved_cases a with same | signed
  · rw [same]
  · have kept : Formula.canonical limit ("~~" ++ halved a) = .ok c ↔
        Formula.canonical limit (halved a) = .ok c := Formula.canonical_doubled
    rw [← signed] at kept
    exact kept.symm

theorem doubled_reads : Formula.Reads (doubled a) ↔ Formula.Reads a := by
  rcases doubled_cases a with same | signed
  · rw [same]
  · rw [signed]
    exact Formula.reads_doubled

theorem halved_reads : Formula.Reads (halved a) ↔ Formula.Reads a := by
  rcases halved_cases a with same | signed
  · rw [same]
  · have kept : Formula.Reads ("~~" ++ halved a) ↔ Formula.Reads (halved a) :=
      Formula.reads_doubled
    rw [← signed] at kept
    exact kept.symm

/-- A conclusion is joined of two texts, or it means what the one input means. -/
theorem conclude_meaning {i : Inference} (found : i.conclude limit fs = .ok f) :
    (∃ op a b, f = Formula.joinText op a b) ∨
    ∃ a, (i = introduce ∨ i = eliminate) ∧ fs = [a] ∧
      ∀ c, Formula.canonical limit f = .ok c ↔ Formula.canonical limit a = .ok c := by
  rcases conclude_ok found with ⟨op, a, b, -, -, rfl⟩ | ⟨a, -, -, contraposed⟩ |
    ⟨a, intro_, rfl, rfl⟩ | ⟨a, elim, rfl, rfl⟩
  · exact Or.inl ⟨op, a, b, rfl⟩
  · obtain ⟨op, a, b, -, -, joined⟩ := Formula.contrapositive_joined contraposed
    exact Or.inl ⟨op, a, b, joined⟩
  · exact Or.inr ⟨a, Or.inl intro_, rfl, fun c => canonical_doubled⟩
  · exact Or.inr ⟨a, Or.inr elim, rfl, fun c => canonical_halved⟩

theorem conclude_reads {i : Inference} (premises : ∀ g ∈ fs, Formula.Reads g)
    (found : i.conclude limit fs = .ok f) : Formula.Reads f := by
  rcases conclude_ok found with ⟨op, a, b, -, rfl, rfl⟩ | ⟨a, -, rfl, contraposed⟩ |
    ⟨a, -, rfl, rfl⟩ | ⟨a, -, rfl, rfl⟩
  · exact Formula.joinText_reads op (premises a (by simp)) (premises b (by simp))
  · exact (Formula.contrapositive_joined contraposed).reads
  · exact doubled_reads.mpr (premises a (by simp))
  · exact halved_reads.mpr (premises a (by simp))

end Inference

/-! ### Rules -/

theorem Rule.inference_double {r : Rule} {subtype : Value} {i : Inference}
    (meant : r.inference subtype = .ok i) :
    r = .doubleNegation ↔ i = .introduce ∨ i = .eliminate := by
  unfold inference at meant
  split at meant
  · cases meant
    simp
  · cases meant
    simp
  · cases meant
    simp
  · split at meant
    · cases meant
      simp
    · split at meant <;> cases meant
      simp
  · split at meant
    · cases meant
      simp
    · split at meant <;> cases meant
      simp

/-! ### Inputs that cannot be read -/

section
variable {error : FormulaError} {inputs : List Step}

theorem mapM_only_readable : inputs.mapM Step.only ≠ .error (.formula error) := by
  intro h
  obtain ⟨x, -, fails⟩ := exists_of_mapM_error h
  unfold Step.only at fails
  split at fails <;> cases fails

theorem Inference.conclude_unreadable {i : Inference}
    (h : i.conclude limit fs = .error (.formula error)) :
    ∃ g ∈ fs, Formula.read limit g = .error error := by
  unfold conclude at h
  split at h
  · cases h
  · rename_i g
    unfold contrapositive at h
    split at h
    · rename_i e read
      cases h
      exact ⟨g, by simp, read⟩
    · cases h
    · cases h
  · cases h
  · cases h
  · cases h

/-- A rule fails for a formula only where an input holds one that cannot be read. -/
theorem Rule.apply_unreadable {r : Rule} {subtype : Value}
    (h : r.apply limit inputs subtype = .error (.formula error)) :
    ∃ x ∈ inputs, ∃ g ∈ x.formulas, Formula.read limit g = .error error := by
  have meant {subtype : Value} : r.inference subtype ≠ .error (.formula error) := by
    unfold inference
    intro fails
    repeat' split at fails
    all_goals cases fails
  have made {i : Inference} {fs : List String} (read : inputs.mapM Step.only = .ok fs)
      (fails : i.make limit inputs fs = .error (.formula error)) :
      ∃ x ∈ inputs, ∃ g ∈ x.formulas, Formula.read limit g = .error error := by
    rcases bind_eq_error.mp fails with concluded | ⟨f, -, returned⟩
    · obtain ⟨g, member, unread⟩ := Inference.conclude_unreadable concluded
      obtain ⟨x, input, holds⟩ := Inference.exists_input (mapM_only_ok_iff.mp read) member
      exact ⟨x, input, g, by simp [holds], unread⟩
    · cases returned
  unfold apply at h
  split at h
  · unfold applyAs at h
    split at h
    · rcases bind_eq_error.mp h with fails | ⟨fs, read, h⟩
      · exact absurd fails mapM_only_readable
      · rcases bind_eq_error.mp h with fails | ⟨i, -, fails⟩
        · exact absurd fails meant
        · exact made read fails
    · rcases bind_eq_error.mp h with fails | ⟨i, -, h⟩
      · exact absurd fails meant
      · rcases bind_eq_error.mp h with fails | ⟨fs, read, fails⟩
        · exact absurd fails mapM_only_readable
        · exact made read fails
  · cases h

end

end Premise
