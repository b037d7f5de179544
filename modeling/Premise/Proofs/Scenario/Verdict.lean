import Premise.Proofs.Scenario.Validation

/-!
What the check of a single formula says. A text that can be cut mentions a connective exactly if one of
its tokens is a connective, and so the check hints at compound formulas without parentheses and at no
others. Main statement: `Validation.verdict_matches_reading`.
-/
namespace Premise

variable {cs rest : List Char} {ws : List Word} {t : Formula} {limit : Option Nat} {text : String}

/-! ### Connectives among words -/

def Word.isConnective : Word → Bool
  | operator (.connective _) => true
  | _ => false

/-- Somewhere in the tree two formulas are joined. -/
def Formula.hasConnective : Formula → Bool
  | atom _ => false
  | neg f => f.hasConnective
  | binary _ _ _ => true

theorem Derives.hasConnective {k : Category} (h : Derives k ws t) :
    t.hasConnective = ws.any Word.isConnective := by
  induction h with
  | identifier name => rfl
  | parenthesized _ ih => simp [Word.isConnective, ih]
  | not _ ih => simpa [Formula.hasConnective, Word.isConnective] using ih
  | and => simp [Formula.hasConnective, Word.isConnective]
  | or => simp [Formula.hasConnective, Word.isConnective]
  | implies => simp [Formula.hasConnective, Word.isConnective]
  | iff => simp [Formula.hasConnective, Word.isConnective]
  | _ => assumption

namespace Validation

/-! ### One place in a text -/

theorem symbol_mentioned : (connectiveSymbols.any fun s => s.toList.isPrefixOf cs) = true ↔
    ∃ op rest, Operator.ofSymbol? cs = some (.connective op, rest) := by
  constructor
  · intro mentioned
    obtain ⟨s, listed, front⟩ := List.any_eq_true.mp mentioned
    obtain ⟨rest, rfl⟩ := List.isPrefixOf_iff_prefix.mp front
    simp only [connectiveSymbols, List.mem_cons, List.not_mem_nil, or_false] at listed
    rcases listed with rfl | rfl | rfl | rfl | rfl | rfl | rfl | rfl | rfl | rfl <;>
      exact ⟨_, rest, rfl⟩
  · rintro ⟨op, rest, found⟩
    unfold Operator.ofSymbol? at found
    split at found <;> cases found <;> rfl

/-- A run of identifier characters is the word that stands at the front, and no other is. -/
theorem startsWithWord_run {word : String} {run : List Char}
    (spelled : ∀ c ∈ word.toList, isIdentifierChar c = true)
    (inside : ∀ c ∈ run, isIdentifierChar c = true) (stops : Stops rest) :
    startsWithWord word (run ++ rest) = true ↔ word.toList = run := by
  have split : startsWithWord word (run ++ rest) = true ↔
      ∃ behind, word.toList ++ behind = run ++ rest ∧ Stops behind := by
    unfold startsWithWord
    rw [Bool.and_eq_true, List.isPrefixOf_iff_prefix]
    constructor
    · rintro ⟨⟨behind, whole⟩, ended⟩
      refine ⟨behind, whole, ?_⟩
      rw [← whole, ← String.length_toList, List.drop_left] at ended
      rintro c more rfl
      simpa using ended
    · rintro ⟨behind, whole, ends⟩
      refine ⟨⟨behind, whole⟩, ?_⟩
      rw [← whole, ← String.length_toList, List.drop_left]
      cases behind with
      | nil => rfl
      | cons c more => simp [ends c more rfl]
  rw [split]
  constructor
  · rintro ⟨behind, whole, ends⟩
    -- Both are the longest front of identifier characters.
    have longest {front back : List Char} (inside : ∀ c ∈ front, isIdentifierChar c = true)
        (ends : Stops back) : (front ++ back).takeWhile isIdentifierChar = front := by
      rw [List.takeWhile_append_of_pos inside]
      cases back with
      | nil => simp
      | cons c back => simp [ends c back rfl]
    rw [← longest spelled ends, whole, longest inside stops]
  · rintro rfl
    exact ⟨rest, rfl, stops⟩

theorem connectiveWords_spelled {word : String} (listed : word ∈ connectiveWords) :
    (∀ c ∈ word.toList, isIdentifierChar c = true) ∧
      ∃ c more, word.toList = c :: more ∧ isLetter c = true := by
  have letters : ∃ c more, word.toList = c :: more ∧ isLetter c = true ∧
      more.all isIdentifierChar = true := by
    simp only [connectiveWords, List.mem_cons, List.not_mem_nil, or_false] at listed
    rcases listed with rfl | rfl | rfl | rfl <;> exact ⟨_, _, rfl, by decide, by decide⟩
  obtain ⟨c, more, chars, letter, run⟩ := letters
  rw [chars]
  refine ⟨List.forall_mem_cons.mpr ⟨identifierChar_of_letter letter, ?_⟩, c, more, rfl, letter⟩
  exact List.all_eq_true.mp run

theorem ofRun_connective (run : List Char) :
    (Word.ofRun run).isConnective = true ↔ String.ofList run ∈ connectiveWords := by
  unfold Word.ofRun Operator.ofWord? connectiveWords
  generalize String.ofList run = name
  grind [Word.isConnective]

theorem word_mentioned {run : List Char} (inside : ∀ c ∈ run, isIdentifierChar c = true)
    (stops : Stops rest) :
    (connectiveWords.any fun word => startsWithWord word (run ++ rest)) =
      (Word.ofRun run).isConnective := by
  rw [Bool.eq_iff_iff, List.any_eq_true, ofRun_connective]
  constructor
  · rintro ⟨word, listed, starts⟩
    have same := (startsWithWord_run (connectiveWords_spelled listed).1 inside stops).mp starts
    rwa [← same, String.ofList_toList]
  · intro listed
    refine ⟨_, listed, ?_⟩
    rw [startsWithWord_run (connectiveWords_spelled listed).1 inside stops, String.toList_ofList]

theorem no_word {c : Char} (outside : isIdentifierChar c = false) (cs : List Char) :
    (connectiveWords.any fun word => startsWithWord word (c :: cs)) = false := by
  rw [List.any_eq_false]
  intro word listed starts
  obtain ⟨d, more, chars, letter⟩ := (connectiveWords_spelled listed).2
  simp only [startsWithWord, chars, List.isPrefixOf_cons_cons, Bool.and_eq_true, beq_iff_eq] at starts
  obtain ⟨⟨rfl, -⟩, -⟩ := starts
  rw [identifierChar_of_letter letter] at outside
  cases outside

/-! ### Whole texts -/

theorem mentionsFrom_symbol {op : Connective} (joined : Bool)
    (found : Operator.ofSymbol? cs = some (.connective op, rest)) : mentionsFrom joined cs = true := by
  cases cs with
  | nil => cases found
  | cons c cs =>
    rw [mentionsFrom, symbol_mentioned.mpr ⟨op, rest, found⟩]
    rfl

/-- A character that belongs to no connective is passed over. -/
theorem mentionsFrom_pass {c : Char} (joined : Bool) (outside : isIdentifierChar c = false)
    (other : ∀ op rest, Operator.ofSymbol? (c :: cs) ≠ some (.connective op, rest)) :
    mentionsFrom joined (c :: cs) = mentionsFrom false cs := by
  have noSymbol : (connectiveSymbols.any fun s => s.toList.isPrefixOf (c :: cs)) = false := by
    rw [← Bool.not_eq_true, symbol_mentioned]
    rintro ⟨op, rest, found⟩
    exact other op rest found
  rw [mentionsFrom, noSymbol, no_word outside, outside]
  simp

theorem no_symbol {c : Char} (inside : isIdentifierChar c = true) (cs : List Char) :
    (connectiveSymbols.any fun s => s.toList.isPrefixOf (c :: cs)) = false := by
  rw [← Bool.not_eq_true, symbol_mentioned]
  rintro ⟨op, rest, found⟩
  rw [symbol_head_stops found] at inside
  cases inside

/-- In the middle of a run no connective begins. -/
theorem mentionsFrom_run {run : List Char} (inside : ∀ c ∈ run, isIdentifierChar c = true)
    (rest : List Char) : mentionsFrom true (run ++ rest) = mentionsFrom true rest := by
  induction run with
  | nil => rfl
  | cons c run ih =>
    obtain ⟨first, others⟩ := List.forall_mem_cons.mp inside
    rw [List.cons_append, mentionsFrom, no_symbol first, first, ih others]
    simp

/-- Behind an identifier character the words have to begin with something else. -/
theorem mentionsFrom_spells (h : Spells cs ws) {joined : Bool} (apart : joined = true → Stops cs) :
    mentionsFrom joined cs = ws.any Word.isConnective := by
  induction h generalizing joined with
  | nil => rfl
  | @blank c cs ws blank _ ih =>
    rw [mentionsFrom_pass joined (blank_stops blank), ih (by simp)]
    intro op rest found
    rw [(symbol_head_kind found).1] at blank
    cases blank
  | @leftParen cs ws _ ih =>
    rw [mentionsFrom_pass joined (by decide) (by rintro op rest ⟨⟩), ih (by simp)]
    rfl
  | @rightParen cs ws _ ih =>
    rw [mentionsFrom_pass joined (by decide) (by rintro op rest ⟨⟩), ih (by simp)]
    rfl
  | @symbol cs rest op ws found _ ih =>
    cases op with
    | connective op =>
      rw [mentionsFrom_symbol joined found]
      rfl
    | not =>
      have signs : cs = '~' :: rest ∨ cs = '!' :: rest := by
        unfold Operator.ofSymbol? at found
        split at found <;> cases found
        · exact Or.inl rfl
        · exact Or.inr rfl
      rcases signs with rfl | rfl
      · rw [mentionsFrom_pass joined (by decide) (by rintro op rest ⟨⟩), ih (by simp)]
        rfl
      · rw [mentionsFrom_pass joined (by decide) (by rintro op rest ⟨⟩), ih (by simp)]
        rfl
  | @run c more rest ws letter name stops _ ih =>
    have inside := identifierChar_of_letter letter
    have fresh : joined = false := by
      rw [← Bool.not_eq_true]
      intro joins
      rw [apart joins c _ rfl] at inside
      cases inside
    have word := word_mentioned (List.forall_mem_cons.mpr ⟨inside, name⟩) stops
    rw [List.cons_append] at word
    rw [mentionsFrom, fresh, no_symbol inside, word, inside, mentionsFrom_run name,
      ih fun _ => stops, List.any_cons]
    simp

theorem mentionsConnective_of_parse (parsed : Formula.parse limit text = .ok t) :
    mentionsConnective text = t.hasConnective := by
  obtain ⟨ws, spelled, derived⟩ := Formula.parse_ok_iff.mp (Formula.parse_none parsed)
  rw [mentionsConnective, mentionsFrom_spells spelled (by simp), derived.hasConnective]

/-- An operator word inside a name is no connective. -/
example : mentionsConnective "A AND B" = true ∧ mentionsConnective "A_AND_B" = false := by
  decide

/-! ### Verdicts -/

/-- The warning that a compound formula without parentheses gets. -/
def parenthesesHint (formula : String) : String :=
  "Formula " ++ Text.quoted formula ++ " may need parentheses around compound expressions"

theorem ofFormula_refused {e : FormulaError} (refused : Formula.parse limit text = .error e) :
    ∃ message, ofFormula limit text = error message := by
  unfold ofFormula
  rw [refused]
  split
  · exact ⟨_, rfl⟩
  · exact ⟨_, rfl⟩

theorem ofFormula_read (parsed : Formula.parse limit text = .ok t) :
    isBalanced text = true ∧ ofFormula limit text =
      if '(' ∉ text.toList ∧ t.hasConnective = true then warning (parenthesesHint text) else {} := by
  have balanced : isBalanced text = true := Formula.Reads.balanced ⟨t, Formula.parse_none parsed⟩
  refine ⟨balanced, ?_⟩
  rw [ofFormula, if_pos balanced, parsed, mentionsConnective_of_parse parsed]
  simp [parenthesesHint, and_comm]

/-- The check of a formula agrees with reading it. There is an error, and one alone, exactly if the text
does not read, which a text with unbalanced parentheses never does; the hint is given exactly if the
text reads, has no parenthesis and joins two formulas somewhere; and there is never an error along with
the hint. -/
theorem verdict_matches_reading (limit : Option Nat) (text : String) :
    ((ofFormula limit text).errors ≠ [] ↔ ∃ e, Formula.parse limit text = .error e) ∧
    (ofFormula limit text).errors.length ≤ 1 ∧
    (isBalanced text = true ∨ ∃ e, Formula.parse limit text = .error e) ∧
    ((ofFormula limit text).warnings = [parenthesesHint text] ↔
      ∃ t, Formula.parse limit text = .ok t ∧ '(' ∉ text.toList ∧ t.hasConnective = true) ∧
    ((ofFormula limit text).warnings = [] ∨
      (ofFormula limit text).warnings = [parenthesesHint text]) ∧
    ((ofFormula limit text).errors = [] ∨ (ofFormula limit text).warnings = []) := by
  cases read : Formula.parse limit text with
  | error e =>
    obtain ⟨message, verdict⟩ := ofFormula_refused read
    rw [verdict]
    simp [error]
  | ok t =>
    obtain ⟨balanced, verdict⟩ := ofFormula_read read
    rw [verdict, balanced]
    by_cases compound : '(' ∉ text.toList ∧ t.hasConnective = true
    · simp [compound, warning]
    · simp [compound]

end Validation

end Premise
