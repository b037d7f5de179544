import Premise.Proofs.Except
import Premise.Proofs.Formula.Height
import Premise.Proofs.Token.Coverage

/-!
Where reading fails. Whatever the reader has taken so far, something can be put behind it that makes
it a formula, so that a token is refused exactly where no formula goes on with it. Main statements:
`viable_iff` and `parse_refuses_first`.
-/
namespace Premise

variable {limit : Option Nat} {ts : List Token} {text : String}

/-- Some tokens that make up a formula begin with these. -/
def Viable (ts : List Token) : Prop :=
  ∃ later stop t, Formula.ofTokens none ⟨ts ++ later, stop⟩ = .ok t

/-! ### What can be completed -/

namespace Parser

/-- Right parentheses close whatever is open behind an operand. -/
theorem shifts_closing (ls : List Level) (l : Level) (x : Formula) :
    ∃ l' x', shifts? ⟨ls, l, some x⟩ (List.replicate ls.length .rightParen) =
      some ⟨[], l', some x'⟩ := by
  induction ls generalizing l x with
  | nil => exact ⟨l, x, rfl⟩
  | cons outer ls ih => exact ih { outer with negations := 0 } ((l.close x).negs outer.negations)

/-- Every state can come to a formula: where an operand is missing, by any operand. -/
theorem completes (p : Parser) : ∃ cs ws l x,
    Spells (' ' :: cs) ws ∧ p.shifts? ws = some ⟨[], l, some x⟩ := by
  have closing (n : Nat) : Spells (List.replicate n ')') (List.replicate n .rightParen) := by
    induction n with
    | zero => exact .nil
    | succ n ih => exact .rightParen ih
  have stops (n : Nat) : Stops (List.replicate n ')') := by
    cases n with
    | zero => exact stops_nil
    | succ n => exact stops_cons _ (by decide)
  obtain ⟨ls, l, operand⟩ := p
  cases operand with
  | some x =>
    obtain ⟨l', x', closed⟩ := shifts_closing ls l x
    exact ⟨_, _, l', x', .blank (by decide) (closing ls.length), closed⟩
  | none =>
    obtain ⟨l', x', closed⟩ :=
      shifts_closing ls { l with negations := 0 } ((Formula.atom "x").negs l.negations)
    have name : Spells ('x' :: ([] ++ List.replicate ls.length ')'))
        (.identifier "x" :: List.replicate ls.length .rightParen) :=
      .run (by decide) (by simp) (stops ls.length) (closing ls.length)
    exact ⟨_, _, l', x', .blank (by decide) name, closed⟩

theorem run_prefix {p q : Parser} {later : List Token} (ran : p.run limit (ts ++ later) = .ok q) :
    ∃ middle, p.run limit ts = .ok middle ∧ middle.run limit later = .ok q := by
  rw [run_append] at ran
  exact bind_eq_ok.mp ran

/-- A run without limit that fails does so at the first token that the state before it refuses. -/
theorem run_refused {p : Parser} {e : ParseError} (refused : p.run none ts = .error e) :
    ∃ k t q, ts[k]? = some t ∧ p.run none (ts.take k) = .ok q ∧ q.step t = .error e := by
  induction ts generalizing p with
  | nil => cases refused
  | cons t rest ih =>
    rw [run, advance_none] at refused
    cases stepped : p.step t with
    | error why =>
      rw [stepped] at refused
      cases refused
      exact ⟨0, t, p, rfl, rfl, stepped⟩
    | ok next =>
      rw [stepped] at refused
      obtain ⟨k, u, q, here, ran, fails⟩ := ih refused
      refine ⟨k + 1, u, q, here, ?_, fails⟩
      rw [List.take_succ_cons, run, advance_none, stepped]
      exact ran

end Parser

/-- What the reader takes is what some formula begins with. -/
theorem viable_iff : Viable ts ↔ ∃ p, Parser.run none {} ts = .ok p := by
  constructor
  · rintro ⟨later, stop, t, read⟩
    unfold Formula.ofTokens at read
    cases ran : Parser.run none {} (ts ++ later) with
    | error e => rw [ran] at read; cases read
    | ok q =>
      obtain ⟨p, taken, -⟩ := Parser.run_prefix ran
      exact ⟨p, taken⟩
  · rintro ⟨p, taken⟩
    obtain ⟨cs, ws, l, x, -, completed⟩ := p.completes
    let later : List Token := ws.map (⟨·, 0⟩)
    have words : later.map (·.word) = ws := by simp [later, Function.comp_def]
    have ran : Parser.run none {} (ts ++ later) = .ok ⟨[], l, some x⟩ := by
      rw [Parser.run_append, taken]
      exact Parser.run_ok_iff.mpr (words ▸ completed)
    refine ⟨later, 0, l.close x, ?_⟩
    rw [Formula.ofTokens, ran]
    rfl

/-! ### Refusals -/

/-- What the error says that was found: a token, or the end. -/
def ParseError.Finds (found : Option Token) : ParseError → Prop
  | missingOperand t _ | unclosed t _ => t = found
  | trailing t => some t = found
  | tooDeep _ => False

/-- Token `k`, or the end behind all tokens, cannot go on what stands before it. -/
structure Refuses (ts : Tokens) (e : ParseError) (k : Nat) : Prop where
  within : k ≤ ts.list.length
  finds : e.Finds ts.list[k]?
  place : e.position = ts.place k
  before : Viable (ts.list.take k)
  token : k < ts.list.length → ¬ Viable (ts.list.take (k + 1))
  stop : k = ts.list.length → ¬ ∃ t, Formula.ofTokens none ts = .ok t

theorem ParseError.finds_of_step {p : Parser} {t : Token} {e : ParseError}
    (refused : p.step t = .error e) : e.Finds (some t) ∧ e.position = t.position := by
  rcases Parser.step_refuses refused with rfl | rfl | rfl
  · exact ⟨rfl, rfl⟩
  · exact ⟨rfl, rfl⟩
  · exact ⟨rfl, rfl⟩

theorem ParseError.finds_of_finish {p : Parser} {stop : Nat} {e : ParseError}
    (refused : p.finish stop = .error e) : e.Finds none ∧ e.position = stop := by
  unfold Parser.finish at refused
  split at refused <;> cases refused
  · exact ⟨rfl, rfl⟩
  · exact ⟨rfl, rfl⟩

theorem ofTokens_refuses {ts : Tokens} {e : ParseError}
    (refused : Formula.ofTokens none ts = .error e) : ∃ k, Refuses ts e k := by
  have unread : ¬ ∃ t, Formula.ofTokens none ts = .ok t := by
    rintro ⟨t, read⟩
    rw [refused] at read
    cases read
  unfold Formula.ofTokens at refused
  cases ran : Parser.run none {} ts.list with
  | ok p =>
    rw [ran] at refused
    obtain ⟨finds, place⟩ := ParseError.finds_of_finish refused
    have ended : ts.list[ts.list.length]? = none := List.getElem?_eq_none (Nat.le_refl _)
    have found : e.Finds ts.list[ts.list.length]? := by rwa [ended]
    have stands : e.position = ts.place ts.list.length := by rwa [Tokens.place, ended]
    refine ⟨ts.list.length, Nat.le_refl _, found, stands, ?_, ?_, fun _ => unread⟩
    · rw [List.take_length]
      exact viable_iff.mpr ⟨p, ran⟩
    · exact fun before => absurd before (Nat.lt_irrefl _)
  | error why =>
    rw [ran] at refused
    cases refused
    obtain ⟨k, t, q, here, taken, fails⟩ := Parser.run_refused ran
    obtain ⟨finds, place⟩ := ParseError.finds_of_step fails
    have inside := (List.getElem?_eq_some_iff.mp here).1
    have found : e.Finds ts.list[k]? := by rwa [here]
    have stands : e.position = ts.place k := by rwa [Tokens.place, here]
    refine ⟨k, Nat.le_of_lt inside, found, stands, viable_iff.mpr ⟨q, taken⟩, ?_, ?_⟩
    · intro _ viable
      obtain ⟨p, further⟩ := viable_iff.mp viable
      rw [List.take_add_one, here, Parser.run_append, taken] at further
      change Parser.run none q [t] = _ at further
      rw [Parser.run, Parser.advance_none, fails] at further
      cases further
    · exact fun last => absurd inside (last ▸ Nat.lt_irrefl _)

/-! ### Limits -/

/-- A limit on nesting changes nothing but that reading may stop for it. -/
theorem Parser.run_limited (limit : Option Nat) (p : Parser) (ts : List Token) :
    p.run limit ts = p.run none ts ∨ ∃ q, p.run limit ts = .error (.tooDeep q) := by
  induction ts generalizing p with
  | nil => exact Or.inl rfl
  | cons t rest ih =>
    rw [run, run, advance_none, advance]
    cases stepped : p.step t with
    | error e => exact Or.inl rfl
    | ok next =>
      dsimp only
      by_cases exceeded : limit.any (· < next.depth) = true
      · rw [if_pos exceeded]
        exact Or.inr ⟨_, rfl⟩
      · rw [if_neg exceeded]
        exact ih next

theorem ofTokens_limited (limit : Option Nat) (ts : Tokens) :
    Formula.ofTokens limit ts = Formula.ofTokens none ts ∨
      ∃ q, Formula.ofTokens limit ts = .error (.tooDeep q) := by
  unfold Formula.ofTokens
  rcases Parser.run_limited limit {} ts.list with same | ⟨q, deep⟩
  · rw [same]
    exact Or.inl rfl
  · rw [deep]
    exact Or.inr ⟨q, rfl⟩

/-! ### Texts -/

theorem parse_of_cut {ts : Tokens} (cut : Tokens.ofText text = .ok ts) (limit : Option Nat) :
    Formula.parse limit text = (Formula.ofTokens limit ts).mapError .parse := by
  rw [Formula.parse, cut]
  dsimp only
  cases Formula.ofTokens limit ts <;> rfl

/-- The text before a viable front of its tokens ends can be written on to a formula. -/
theorem reads_of_viable {ts : Tokens} (cut : Tokens.ofText text = .ok ts) {k : Nat}
    (viable : Viable (ts.list.take k)) :
    ∃ more, Formula.Reads (String.ofList (text.toList.take (ts.place k) ++ more)) := by
  obtain ⟨p, taken⟩ := viable_iff.mp viable
  obtain ⟨cs, us, l, x, spelled', completed⟩ := p.completes
  obtain ⟨front, back, split, place, spelled⟩ := tokens_before cut k
  have chars : text.toList = front ++ back := split
  have place : ts.place k = front.length := place.symm.trans (Nat.zero_add _)
  have whole : Spells (front ++ ' ' :: cs) (ts.words.take k ++ us) :=
    spelled.append spelled' (stops_cons _ (by decide))
  rw [← String.toList_ofList (l := front ++ ' ' :: cs)] at whole
  obtain ⟨ts', cut', words⟩ := ofText_ok.mpr whole
  rw [place, chars, List.take_left]
  refine ⟨' ' :: cs, l.close x, ?_⟩
  have read : Parser.run none {} ts'.list = .ok ⟨[], l, some x⟩ := by
    have first : Parser.shifts? {} (ts.words.take k) = some p := by
      rw [Tokens.words, ← List.map_take]
      exact Parser.run_ok_iff.mp taken
    refine Parser.run_ok_iff.mpr ?_
    change Parser.shifts? {} ts'.words = _
    rw [words, Parser.shifts?_append, first]
    exact completed
  rw [parse_of_cut cut', Formula.ofTokens, read]
  rfl

/-- A text that is cut into tokens and is no formula is refused at a token, or at the end behind all
tokens, which the error names with its position: the tokens before it begin some formula, as does
the text before it, and with it they begin none. Under a limit on nesting the error is the same, or
that the limit is exceeded. -/
theorem parse_refuses_first {ts : Tokens} (cut : Tokens.ofText text = .ok ts)
    (unread : ¬ Formula.Reads text) :
    ∃ e k, Formula.parse none text = .error (.parse e) ∧ Refuses ts e k ∧
      e.position ≤ text.length ∧
      (∃ more, Formula.Reads (String.ofList (text.toList.take e.position ++ more))) ∧
      ∀ limit, Formula.parse limit text = .error (.parse e) ∨
        ∃ p, Formula.parse limit text = .error (.parse (.tooDeep p)) := by
  have parsed := parse_of_cut cut none
  cases read : Formula.ofTokens none ts with
  | ok t =>
    rw [read] at parsed
    exact absurd ⟨t, parsed⟩ unread
  | error e =>
    obtain ⟨k, refuses⟩ := ofTokens_refuses read
    rw [read] at parsed
    refine ⟨e, k, parsed, refuses, ?_, ?_, fun limit => ?_⟩
    · rw [refuses.place]
      exact Tokens.place_le cut k
    · rw [refuses.place]
      exact reads_of_viable cut refuses.before
    · rw [parse_of_cut cut limit]
      rcases ofTokens_limited limit ts with same | ⟨p, deep⟩
      · rw [same, read]
        exact Or.inl rfl
      · rw [deep]
        exact Or.inr ⟨p, rfl⟩

theorem parenthesis_refused : ∃ ts e k, Tokens.ofText "(A -> ) B" = .ok ts ∧
    ¬ Formula.Reads "(A -> ) B" ∧ Formula.parse none "(A -> ) B" = .error (.parse e) ∧
    Refuses ts e k ∧ e.position = 6 ∧
    ∃ more, Formula.Reads (String.ofList ("(A -> ".toList ++ more)) := by
  have cut : Tokens.ofText "(A -> ) B" = .ok ⟨[⟨.leftParen, 0⟩, ⟨.identifier "A", 1⟩,
      ⟨.operator (.connective .implies), 3⟩, ⟨.rightParen, 6⟩, ⟨.identifier "B", 8⟩], 9⟩ := by cbv
  have failed : Formula.parse none "(A -> ) B" =
      .error (.parse (.missingOperand (some ⟨.rightParen, 6⟩) 6)) := by cbv
  have unread : ¬ Formula.Reads "(A -> ) B" := by
    rintro ⟨t, read⟩
    rw [failed] at read
    cases read
  obtain ⟨e, k, parsed, refuses, -, ⟨more, reads⟩, -⟩ := parse_refuses_first cut unread
  cases failed.symm.trans parsed
  exact ⟨_, _, k, cut, unread, parsed, refuses, rfl, more, reads⟩

end Premise
