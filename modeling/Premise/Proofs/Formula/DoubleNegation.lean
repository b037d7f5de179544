import Premise.Proofs.Formula.Height
import Premise.Proofs.Formula.Regrouping
import Premise.Proofs.Formula.View

/-!
Pairs of negation signs in front of a text. The text reads under a limit exactly if it does without
them, and to the same tree up to double negations, although the signs bind the first operand alone.
Main statements: `read_doubled` and `ReadsLike.stripped`.
-/
namespace Premise

variable {limit : Option Nat} {text : String} {ws : List Word} {t u : Formula}

namespace Formula

theorem nesting_normalize (t : Formula) : t.normalize.nesting = t.nesting := by
  have flip (u : Formula) : u.flip.nesting = u.nesting := by cases u <;> rfl
  induction t with
  | atom name => rfl
  | neg t ih => rw [normalize, flip, ih, nesting]
  | binary op l r left right => rw [normalize, nesting, nesting, left, right]

theorem flip_flip_normalize (t : Formula) : t.normalize.flip.flip = t.normalize := by
  induction t with
  | atom name => rfl
  | neg t ih => rw [normalize, ih]
  | binary op l r => rfl

end Formula

/-! ### In the grammar -/

theorem Derives.doubled {c : Category} (h : Derives c ws t) (operand : c ≠ .primary) :
    ∃ u, Derives c (.operator .not :: .operator .not :: ws) u ∧ u.normalize = t.normalize := by
  -- The signs belong to the first operand, so a joined formula hands them to its left side.
  have first : ∀ {ws t}, Derives .negation ws t → ∃ u,
      Derives .negation (.operator .not :: .operator .not :: ws) u ∧ u.normalize = t.normalize :=
    fun {_ t} h => ⟨_, .not (.not h), t.flip_flip_normalize⟩
  induction h with
  | identifier name => exact absurd rfl operand
  | parenthesized _ => exact absurd rfl operand
  | primary h => exact first (.primary h)
  | not h => exact first (.not h)
  | negation h =>
    obtain ⟨u, signed, same⟩ := first h
    exact ⟨u, .negation signed, same⟩
  | conjunction _ ih =>
    obtain ⟨u, signed, same⟩ := ih (by simp)
    exact ⟨u, .conjunction signed, same⟩
  | disjunction _ ih =>
    obtain ⟨u, signed, same⟩ := ih (by simp)
    exact ⟨u, .disjunction signed, same⟩
  | implication _ ih =>
    obtain ⟨u, signed, same⟩ := ih (by simp)
    exact ⟨u, .implication signed, same⟩
  | and _ right ih =>
    obtain ⟨u, signed, same⟩ := ih (by simp)
    exact ⟨_, .and signed right, by simp [Formula.normalize, same]⟩
  | or _ right ih =>
    obtain ⟨u, signed, same⟩ := ih (by simp)
    exact ⟨_, .or signed right, by simp [Formula.normalize, same]⟩
  | implies _ right ih =>
    obtain ⟨u, signed, same⟩ := ih (by simp)
    exact ⟨_, .implies signed right, by simp [Formula.normalize, same]⟩
  | iff _ right ih =>
    obtain ⟨u, signed, same⟩ := ih (by simp)
    exact ⟨_, .iff signed right, by simp [Formula.normalize, same]⟩

/-! ### In the reader -/

/-- Nothing of formulas and of negations. -/
def View.outline : View where
  formula _ := .atom ""
  count _ := 0
  again _ := rfl
  joined _ _ _ := rfl
  negated _ _ := rfl
  counted _ := rfl
  next _ := rfl

def Level.outline (l : Level) : Level where
  equivalent := l.equivalent.map fun _ => .atom ""
  antecedents := l.antecedents.map fun _ => .atom ""
  disjunct := l.disjunct.map fun _ => .atom ""
  conjunct := l.conjunct.map fun _ => .atom ""

namespace Parser

/-- What is left of a state without the formulas read and without their negations. -/
def outline (p : Parser) : Parser where
  enclosing := p.enclosing.map Level.outline
  level := p.level.outline
  operand := p.operand.map fun _ => .atom ""

theorem depth_outline (p : Parser) : p.outline.depth = p.depth := by
  simp [depth, outline, Level.outline, List.foldl_map]

/-- What the reader does next depends on the outline alone. -/
theorem shift_outline (p : Parser) (w : Word) :
    (p.outline.shift? w).map outline = (p.shift? w).map outline :=
  shift_view (v := .outline) p w

theorem advance_eq_ok {p q : Parser} {t : Token} : p.advance limit t = .ok q ↔
    p.shift? t.word = some q ∧ ∀ n ∈ limit, q.depth ≤ n := by
  unfold advance
  cases stepped : p.step t with
  | error e =>
    have stuck : p.shift? t.word ≠ some q := fun shifted => by
      rw [step_ok_iff.mpr shifted] at stepped
      cases stepped
    simp [stuck]
  | ok next =>
    rw [step_ok_iff.mp stepped]
    cases limit with
    | none => simp
    | some n =>
      by_cases deep : n < next.depth
      · simp only [Option.any_some, deep, decide_true, if_true, reduceCtorEq, Option.some.injEq,
          Option.mem_some_iff, forall_eq', false_iff, not_and]
        rintro rfl
        omega
      · simp only [Option.any_some, deep, decide_false, Bool.false_eq_true, if_false, Except.ok.injEq,
          Option.some.injEq, Option.mem_some_iff, forall_eq', iff_self_and]
        rintro rfl
        omega

/-- States of one outline take the same course over the same words. -/
theorem run_outline {p q p' : Parser} {ts us : List Token} (same : p.outline = q.outline)
    (words : ts.map Token.word = us.map Token.word) (ran : p.run limit ts = .ok p') :
    ∃ q', q.run limit us = .ok q' ∧ p'.outline = q'.outline := by
  induction ts generalizing p q us with
  | nil =>
    cases List.map_eq_nil_iff.mp words.symm
    cases ran
    exact ⟨q, rfl, same⟩
  | cons t ts ih =>
    obtain ⟨t', us, rfl, word, words⟩ := List.map_eq_cons_iff.mp words.symm
    rw [run] at ran
    cases advanced : p.advance limit t with
    | error e => rw [advanced] at ran; cases ran
    | ok p₁ =>
      rw [advanced] at ran
      obtain ⟨shifted, within⟩ := advance_eq_ok.mp advanced
      have course : (q.shift? t.word).map outline = some p₁.outline := by
        rw [← shift_outline, ← same, shift_outline, shifted]
        rfl
      obtain ⟨q₁, shifted', same₁⟩ := Option.map_eq_some_iff.mp course
      have advanced' : q.advance limit t' = .ok q₁ := by
        refine advance_eq_ok.mpr ⟨word ▸ shifted', fun n bound => ?_⟩
        rw [← depth_outline, same₁, depth_outline]
        exact within n bound
      rw [run, advanced']
      exact ih same₁.symm words.symm ran

theorem finish_outline {p q : Parser} {stop : Nat} (stop' : Nat) (same : p.outline = q.outline)
    (finished : p.finish stop = .ok t) : ∃ u, q.finish stop' = .ok u := by
  obtain ⟨enclosing, level, operand⟩ := p
  obtain ⟨enclosing', level', operand'⟩ := q
  obtain ⟨outer, -, last⟩ := Parser.mk.inj same
  unfold finish at finished
  split at finished
  · cases finished
  · rename_i x read none
    dsimp only at read none
    subst read none
    cases List.map_eq_nil_iff.mp outer.symm
    obtain ⟨y, rfl, -⟩ := Option.map_eq_some_iff.mp last.symm
    exact ⟨_, rfl⟩
  · cases finished

end Parser

/-! ### In texts -/

theorem spells_doubled {cs : List Char} :
    Spells ('~' :: '~' :: cs) ws ↔ ∃ us, ws = .operator .not :: .operator .not :: us ∧ Spells cs us := by
  have sign {cs : List Char} {ws : List Word} (h : Spells ('~' :: cs) ws) :
      ∃ us, ws = .operator .not :: us ∧ Spells cs us := by
    generalize front : '~' :: cs = chars at h
    cases h with
    | nil => cases front
    | blank blank => cases front; cases blank
    | leftParen => cases front
    | rightParen => cases front
    | symbol found spelled => cases front; cases found; exact ⟨_, rfl, spelled⟩
    | run letter => cases front; cases letter
  constructor
  · intro h
    obtain ⟨us, rfl, inner⟩ := sign h
    obtain ⟨vs, rfl, spelled⟩ := sign inner
    exact ⟨vs, rfl, spelled⟩
  · rintro ⟨us, rfl, h⟩
    exact .symbol rfl (.symbol rfl h)

namespace Formula

theorem doubled_toList (text : String) : ("~~" ++ text).toList = '~' :: '~' :: text.toList := by
  simp

theorem parse_ok_run : parse limit text = .ok t ↔ ∃ ts p, Tokens.ofText text = .ok ts ∧
    Parser.run limit {} ts.list = .ok p ∧ p.finish ts.stop = .ok t := by
  unfold parse ofTokens
  cases cut : Tokens.ofText text with
  | error e => simp
  | ok ts =>
    dsimp only
    cases ran : Parser.run limit {} ts.list with
    | error e => simp [ran]
    | ok p =>
      dsimp only
      cases finished : p.finish ts.stop with
      | error e => simp [ran, finished]
      | ok u => simp [ran, finished]

/-- The reader gets through a text with a pair of negation signs if it gets through it without. -/
theorem parse_doubled : (∃ u, parse limit ("~~" ++ text) = .ok u) ↔ ∃ t, parse limit text = .ok t := by
  have signed : Parser.outline ⟨[], { negations := 2 }, none⟩ = Parser.outline {} := rfl
  have opens {ts : List Token} {a b : Token} (negates : a.word = .operator .not)
      (negates' : b.word = .operator .not) : Parser.run limit {} (a :: b :: ts) =
        Parser.run limit ⟨[], { negations := 2 }, none⟩ ts := by
    have room : ∀ n ∈ limit, Parser.depth {} ≤ n := fun n _ => Nat.zero_le n
    have first : Parser.shift? {} a.word = some ⟨[], { negations := 1 }, none⟩ := by
      rw [negates]
      rfl
    have second : Parser.shift? ⟨[], { negations := 1 }, none⟩ b.word =
        some ⟨[], { negations := 2 }, none⟩ := by
      rw [negates']
      rfl
    rw [Parser.run_cons _ first room, Parser.run_cons _ second room]
  simp only [parse_ok_run]
  constructor
  · rintro ⟨u, ts, p, cut, ran, finished⟩
    obtain ⟨ws, words, spelled⟩ := spells_doubled.mp
      (doubled_toList text ▸ ofText_ok.mp ⟨ts, cut, rfl⟩)
    obtain ⟨a, rest, shown, first, words⟩ := List.map_eq_cons_iff.mp words
    obtain ⟨b, rest, rfl, second, words⟩ := List.map_eq_cons_iff.mp words
    obtain ⟨us, cut', words'⟩ := ofText_ok.mpr spelled
    rw [shown, opens first second] at ran
    obtain ⟨q, ran', same⟩ := Parser.run_outline signed (words.trans words'.symm) ran
    obtain ⟨t, finished'⟩ := Parser.finish_outline us.stop same finished
    exact ⟨t, us, q, cut', ran', finished'⟩
  · rintro ⟨t, us, p, cut, ran, finished⟩
    have spelled := spells_doubled.mpr ⟨us.words, rfl, ofText_ok.mp ⟨us, cut, rfl⟩⟩
    obtain ⟨ts, cut', words⟩ := ofText_ok.mpr ((doubled_toList text).symm ▸ spelled)
    obtain ⟨a, rest, shown, first, words⟩ := List.map_eq_cons_iff.mp words
    obtain ⟨b, rest, rfl, second, words⟩ := List.map_eq_cons_iff.mp words
    obtain ⟨q, ran', same⟩ := Parser.run_outline signed.symm words.symm ran
    obtain ⟨u, finished'⟩ := Parser.finish_outline ts.stop same finished
    rw [← opens first second, ← shown] at ran'
    exact ⟨u, ts, q, cut', ran', finished'⟩

theorem normalize_doubled (parsed : parse none text = .ok t)
    (parsed' : parse none ("~~" ++ text) = .ok u) : u.normalize = t.normalize := by
  obtain ⟨ws, spelled, derived⟩ := parse_ok_iff.mp parsed
  obtain ⟨v, signed, same⟩ := derived.doubled (by simp)
  have spelled' : Spells ("~~" ++ text).toList (.operator .not :: .operator .not :: ws) := by
    rw [doubled_toList]
    exact spells_doubled.mpr ⟨ws, rfl, spelled⟩
  have read := parse_ok_iff.mpr ⟨_, spelled', signed⟩
  rw [parsed'] at read
  cases read
  exact same

theorem read_ok_iff : read limit text = .ok u ↔
    ∃ t, parse limit text = .ok t ∧ u = t.normalize ∧ ∀ n ∈ limit, u.nesting ≤ n := by
  unfold read
  cases parse limit text with
  | error e => simp
  | ok t =>
    dsimp only
    cases limit with
    | none => simp [eq_comm]
    | some n =>
      by_cases deep : n < t.nesting
      · simp only [Option.any_some, deep, decide_true, if_true, reduceCtorEq, Except.ok.injEq,
          Option.mem_some_iff, forall_eq', false_iff]
        rintro ⟨v, rfl, rfl, shallow⟩
        rw [nesting_normalize] at shallow
        omega
      · simp only [Option.any_some, deep, decide_false, Bool.false_eq_true, if_false,
          Except.ok.injEq, Option.mem_some_iff, forall_eq']
        constructor
        · rintro rfl
          exact ⟨t, rfl, rfl, by rw [nesting_normalize]; omega⟩
        · rintro ⟨v, rfl, rfl, -⟩
          rfl

/-- A pair of negation signs in front of a text changes nothing in how it reads, whatever the limit
and whatever the signs bind. -/
theorem read_doubled : read limit ("~~" ++ text) = .ok u ↔ read limit text = .ok u := by
  rw [read_ok_iff, read_ok_iff]
  constructor
  · rintro ⟨v, parsed', rfl, within⟩
    obtain ⟨t, parsed⟩ := parse_doubled.mp ⟨v, parsed'⟩
    exact ⟨t, parsed, normalize_doubled (parse_none parsed) (parse_none parsed'), within⟩
  · rintro ⟨t, parsed, rfl, within⟩
    obtain ⟨v, parsed'⟩ := parse_doubled.mpr ⟨t, parsed⟩
    exact ⟨v, parsed', (normalize_doubled (parse_none parsed) (parse_none parsed')).symm, within⟩

theorem canonical_ok_iff {c : String} :
    canonical limit text = .ok c ↔ ∃ u, read limit text = .ok u ∧ c = u.render := by
  unfold canonical
  cases read limit text with
  | error e => simp [Except.map]
  | ok u => simp [Except.map, eq_comm]

theorem canonical_doubled {c : String} :
    canonical limit ("~~" ++ text) = .ok c ↔ canonical limit text = .ok c := by
  simp only [canonical_ok_iff, read_doubled]

theorem reads_doubled : Reads ("~~" ++ text) ↔ Reads text :=
  parse_doubled

/-! ### Any number of pairs -/

/-- Under the limit, either text reads exactly if the other does, and their canonical texts are the
same. -/
structure ReadsLike (limit : Option Nat) (a b : String) : Prop where
  parses : (∃ t, parse limit a = .ok t) ↔ ∃ t, parse limit b = .ok t
  means : ∀ c, canonical limit a = .ok c ↔ canonical limit b = .ok c

namespace ReadsLike

variable {a b c : String}

theorem refl (limit : Option Nat) (a : String) : ReadsLike limit a a :=
  ⟨Iff.rfl, fun _ => Iff.rfl⟩

theorem symm (like : ReadsLike limit a b) : ReadsLike limit b a :=
  ⟨like.parses.symm, fun d => (like.means d).symm⟩

theorem trans (like : ReadsLike limit a b) (like' : ReadsLike limit b c) : ReadsLike limit a c :=
  ⟨like.parses.trans like'.parses, fun d => (like.means d).trans (like'.means d)⟩

theorem doubled (limit : Option Nat) (text : String) : ReadsLike limit ("~~" ++ text) text :=
  ⟨parse_doubled, fun _ => canonical_doubled⟩

theorem stripped (limit : Option Nat) (text : String) :
    ReadsLike limit (stripDoubleNegation text) text := by
  refine (strip_invariant (P := fun other => ReadsLike limit other text) (fun other => ?_) text).mpr
    (refl limit text)
  constructor
  · exact (doubled limit other).symm.trans
  · exact (doubled limit other).trans

end ReadsLike

end Formula

end Premise
