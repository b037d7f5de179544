import Premise.Proofs.Formula.Reading

/-!
Two formulas with a connective between them and no parentheses around either. Main statement:
`normalize_joined_iff`, that such words group as the two formulas do exactly where each formula
binds tight enough for its side of the connective.
-/
namespace Premise

namespace Connective

/-- What groups together to the left of the connective. -/
def leftSide : Connective → Category
  | and => .conjunction
  | or | implies => .disjunction
  | iff => .equivalence

/-- What groups together to the right of the connective. -/
def rightSide : Connective → Category
  | and => .negation
  | or => .conjunction
  | implies | iff => .implication

end Connective

section
variable {c : Category} {e : Extent} {op : Connective} {ws us vs : List Word} {t l r : Formula}

theorem Derives.loosen (h : Derives c ws t) : Derives .equivalence ws t := by
  cases c with
  | equivalence => exact h
  | implication => exact .implication h
  | disjunction => exact .implication (.disjunction h)
  | conjunction => exact .implication (.disjunction (.conjunction h))
  | negation => exact h.of_negation
  | primary => exact h.of_primary

theorem Derives.unique (left : Derives .equivalence ws t) (right : Derives .equivalence ws l) :
    t = l := by
  let ts : Tokens := ⟨ws.map (⟨·, 0⟩), 0⟩
  have same : ts.words = ws := by simp [ts, Tokens.words, Function.comp_def]
  rw [← same] at left right
  have read := (ofTokens_ok_iff.mpr left).symm.trans (ofTokens_ok_iff.mpr right)
  exact Except.ok.inj read

theorem Derives.join (left : Derives op.leftSide ws l) (right : Derives op.rightSide us r) :
    Derives .equivalence (ws ++ .operator (.connective op) :: us) (.binary op l r) := by
  cases op with
  | and => exact .implication (.disjunction (.conjunction (.and left right)))
  | or => exact .implication (.disjunction (.or left right))
  | implies => exact .implication (.implies left right)
  | iff => exact .iff left right

/-- Words that are no single operand have a connective that binds loosest. -/
theorem Derives.operand_or_split (h : Derives c ws t) : Phrase .operand ws ∨
    ∃ op us vs l r, ws = us ++ .operator (.connective op) :: vs ∧ t = .binary op l r ∧
      Derives op.leftSide us l ∧ Derives op.rightSide vs r := by
  induction h with
  | identifier name => exact Or.inl (.identifier name)
  | parenthesized inner _ => exact Or.inl (.parenthesized inner.phrase.1)
  | not inner _ => exact Or.inl (.not (inner.phrase.2 (Or.inr rfl)))
  | and left right _ _ => exact Or.inr ⟨.and, _, _, _, _, rfl, rfl, left, right⟩
  | or left right _ _ => exact Or.inr ⟨.or, _, _, _, _, rfl, rfl, left, right⟩
  | implies left right _ _ => exact Or.inr ⟨.implies, _, _, _, _, rfl, rfl, left, right⟩
  | iff left right _ _ => exact Or.inr ⟨.iff, _, _, _, _, rfl, rfl, left, right⟩
  | primary _ ih | negation _ ih | conjunction _ ih | disjunction _ ih | implication _ ih => exact ih

end

/-! ### A connective outside parentheses -/

namespace Level

/-- A left operand waits. -/
def Busy (l : Level) : Prop :=
  l.equivalent ≠ none ∨ l.antecedents ≠ [] ∨ l.disjunct ≠ none ∨ l.conjunct ≠ none

theorem extend_busy (l : Level) (x : Formula) (op : Connective) : (l.extend x op).Busy := by
  cases op <;> simp [extend, Busy]

theorem not_busy : ¬ ({} : Level).Busy := by
  simp [Busy]

end Level

namespace Parser

/-- A single operand leaves nothing waiting that did not wait before, and no phrase takes up all
that waits. -/
theorem phrase_levels {e : Extent} {ws : List Word} (h : Phrase e ws) (ls : List Level)
    (l : Level) :
    ∃ l' x, shifts? ⟨ls, l, none⟩ ws = some ⟨ls, l', some x⟩ ∧ (l.Busy → l'.Busy) ∧
      (e = .operand → l' = { l with negations := 0 }) := by
  induction h generalizing ls l with
  | identifier name => exact ⟨{ l with negations := 0 }, _, rfl, fun busy => busy, fun _ => rfl⟩
  | @parenthesized ws inner _ =>
    obtain ⟨inside, x, shifted⟩ := phrase_shifts inner (l :: ls) {}
    refine ⟨{ l with negations := 0 }, (inside.close x).negs l.negations, ?_, fun busy => busy,
      fun _ => rfl⟩
    change shifts? ⟨l :: ls, {}, none⟩ (ws ++ [.rightParen]) = _
    rw [shifts?_append, shifted]
    rfl
  | not _ ih =>
    obtain ⟨l', x, shifted, busy, settled⟩ := ih ls { l with negations := l.negations + 1 }
    exact ⟨l', x, shifted, busy, settled⟩
  | operand _ ih =>
    obtain ⟨l', x, shifted, busy, -⟩ := ih ls l
    exact ⟨l', x, shifted, busy, fun sequence => nomatch sequence⟩
  | join op _ _ left right =>
    obtain ⟨l', x, shifted, -, -⟩ := left ls l
    obtain ⟨l'', x', shifted', busy, -⟩ := right ls (l'.extend x op)
    refine ⟨l'', x', ?_, fun _ => busy (l'.extend_busy x op), fun sequence => nomatch sequence⟩
    rw [shifts?_append, shifted, Option.bind_some, shifts?_connective, shifted']

/-- Without an operand the machine gets none from words that name nothing. -/
theorem shifts_nameless {p q : Parser} {ws : List Word} (free : p.operand = none)
    (nameless : ws.filterMap Word.name? = []) (shifted : p.shifts? ws = some q) :
    q.operand = none := by
  induction ws generalizing p with
  | nil =>
    cases shifted
    exact free
  | cons w ws ih =>
    rw [shifts?_cons] at shifted
    obtain ⟨next, first, rest⟩ := Option.bind_eq_some_iff.mp shifted
    obtain ⟨enclosing, level, operand⟩ := p
    subst free
    cases w with
    | identifier name => simp at nameless
    | operator op =>
      cases op with
      | not =>
        cases first
        exact ih rfl nameless rest
      | connective op => cases first
    | leftParen =>
      cases first
      exact ih rfl nameless rest
    | rightParen => cases first

end Parser

section
variable {op op' : Connective} {ws us vs us' vs' : List Word}

/-- A single operand has no connective outside parentheses. -/
theorem Phrase.operand_unsplit (whole : Phrase .operand ws) (left : Phrase .sequence us)
    (right : Phrase .sequence vs) : ws ≠ us ++ .operator (.connective op) :: vs := by
  rintro rfl
  obtain ⟨level, x, shifted, -, unchanged⟩ := Parser.phrase_levels whole [] {}
  obtain ⟨l, y, first, -, -⟩ := Parser.phrase_levels left [] {}
  obtain ⟨l', z, rest, busy, -⟩ := Parser.phrase_levels right [] (l.extend y op)
  rw [Parser.shifts?_append, first, Option.bind_some, Parser.shifts?_connective, rest] at shifted
  cases shifted
  have waiting := busy (l.extend_busy y op)
  rw [unchanged rfl] at waiting
  exact Level.not_busy waiting

theorem Phrase.ends {more after : List Word} (left : Phrase .sequence us)
    (whole : Phrase .sequence (us ++ more)) (nameless : more.filterMap Word.name? = [])
    (joined : more ++ after = .operator (.connective op) :: vs) : more = [] := by
  cases more with
  | nil => rfl
  | cons w more =>
    cases joined
    obtain ⟨level, x, shifted⟩ := Parser.phrase_shifts whole [] {}
    obtain ⟨l, y, first⟩ := Parser.phrase_shifts left [] {}
    rw [Parser.shifts?_append, first, Option.bind_some, Parser.shifts?_connective] at shifted
    have rest : more.filterMap Word.name? = [] := by simpa using nameless
    -- After the connective an operand is due, and no name is left for one.
    have stuck := Parser.shifts_nameless rfl rest shifted
    cases stuck

theorem Phrase.split_unique (left : Phrase .sequence us) (left' : Phrase .sequence us')
    (same : us ++ .operator (.connective op) :: vs = us' ++ .operator (.connective op') :: vs')
    (names : us.filterMap Word.name? = us'.filterMap Word.name?) :
    us = us' ∧ op = op' ∧ vs = vs' := by
  rcases List.append_eq_append_iff.mp same with ⟨more, rfl, rest⟩ | ⟨more, rfl, rest⟩
  · have nameless : more.filterMap Word.name? = [] := by simpa using names
    have none := left.ends left' nameless rest.symm
    subst none
    cases rest
    exact ⟨by simp, rfl, rfl⟩
  · have nameless : more.filterMap Word.name? = [] := by simpa using names
    have none := left'.ends left nameless rest.symm
    subst none
    cases rest
    exact ⟨by simp, rfl, rfl⟩

end

/-! ### Where the grouping is kept -/

section
variable {op : Connective} {ws us : List Word} {t l r : Formula}

theorem normalize_joined_iff (left : Derives .equivalence ws l) (right : Derives .equivalence us r)
    (whole : Derives .equivalence (ws ++ .operator (.connective op) :: us) t) :
    t.normalize = (Formula.binary op l r).normalize ↔
      Derives op.leftSide ws l ∧ Derives op.rightSide us r := by
  constructor
  · intro same
    -- The loosest connective of the whole has as many names to its left as the one between the two.
    rcases whole.operand_or_split with single | ⟨op', ws', us', l', r', words, rfl, first, second⟩
    · exact absurd rfl (single.operand_unsplit left.phrase.1 right.phrase.1)
    · rw [Formula.normalize, Formula.normalize] at same
      obtain ⟨rfl, same, -⟩ := Formula.binary.inj same
      have names : ws.filterMap Word.name? = ws'.filterMap Word.name? := by
        rw [← left.leaves, ← first.leaves, ← Formula.leaves_normalize l, ← same,
          Formula.leaves_normalize]
      obtain ⟨rfl, -, rfl⟩ := left.phrase.1.split_unique first.phrase.1 words names
      rw [left.unique first.loosen, right.unique second.loosen]
      exact ⟨first, second⟩
  · rintro ⟨first, second⟩
    rw [whole.unique (first.join second)]

theorem joined_eq_iff (left : Derives .equivalence ws l) (right : Derives .equivalence us r)
    (whole : Derives .equivalence (ws ++ .operator (.connective op) :: us) t) :
    t = .binary op l r ↔ Derives op.leftSide ws l ∧ Derives op.rightSide us r := by
  constructor
  · intro same
    exact (normalize_joined_iff left right whole).mp (by rw [same])
  · rintro ⟨first, second⟩
    exact whole.unique (first.join second)

end

end Premise
