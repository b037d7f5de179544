import Mathlib.Data.List.Chain
import Premise.Proofs.Formula.Height

/-!
Spellings and spacing. A layout puts tokens down one after the other, each in any of its spellings
and behind any blanks, as long as no two words run into each other. Main statement: `parse_layout`,
that a layout of words that write a tree reads back to the very tree.
-/
namespace Premise

/-! ### Spellings of operators -/

namespace Operator

def spellings : Operator → List String
  | not => ["~", "NOT", "!"]
  | connective .and => ["∧", "AND", "&"]
  | connective .or => ["∨", "OR", "|"]
  | connective .implies => ["→", "IMPLIES", "->", "=>"]
  | connective .iff => ["↔", "IFF", "<->", "<=>"]

variable {op : Operator} {text : String}

theorem ofSymbol?_split {cs rest : List Char} (found : ofSymbol? cs = some (op, rest)) :
    ∃ symbol ∈ op.spellings, cs = symbol.toList ++ rest := by
  unfold ofSymbol? at found
  split at found <;> cases found
  · exact ⟨"<->", by decide, rfl⟩
  · exact ⟨"<=>", by decide, rfl⟩
  · exact ⟨"->", by decide, rfl⟩
  · exact ⟨"=>", by decide, rfl⟩
  · exact ⟨"∧", by decide, rfl⟩
  · exact ⟨"&", by decide, rfl⟩
  · exact ⟨"∨", by decide, rfl⟩
  · exact ⟨"|", by decide, rfl⟩
  · exact ⟨"→", by decide, rfl⟩
  · exact ⟨"↔", by decide, rfl⟩
  · exact ⟨"~", by decide, rfl⟩
  · exact ⟨"!", by decide, rfl⟩

theorem ofWord?_cases (found : ofWord? text = some op) : (text, op) ∈
    [("AND", connective .and), ("OR", connective .or), ("IMPLIES", connective .implies),
      ("IFF", connective .iff), ("NOT", not)] := by
  unfold ofWord? at found
  grind

theorem ofWord?_spelling (found : ofWord? text = some op) : text ∈ op.spellings := by
  have words : ∀ entry ∈ [("AND", connective .and), ("OR", connective .or),
      ("IMPLIES", connective .implies), ("IFF", connective .iff), ("NOT", not)],
      entry.1 ∈ entry.2.spellings := by decide
  exact words (text, op) (ofWord?_cases found)

theorem ofWord?_run (found : ofWord? text = some op) : ∃ c more, text.toList = c :: more ∧
    isLetter c = true ∧ (∀ d ∈ more, isIdentifierChar d = true) ∧
    Word.ofRun (c :: more) = .operator op := by
  have letters : ∃ c more, text.toList = c :: more ∧ isLetter c = true ∧
      more.all isIdentifierChar = true := by
    have listed := ofWord?_cases found
    simp only [List.mem_cons, List.not_mem_nil, or_false, Prod.mk.injEq] at listed
    rcases listed with ⟨rfl, -⟩ | ⟨rfl, -⟩ | ⟨rfl, -⟩ | ⟨rfl, -⟩ | ⟨rfl, -⟩ <;>
      exact ⟨_, _, rfl, by decide, by decide⟩
  obtain ⟨c, more, chars, letter, run⟩ := letters
  refine ⟨c, more, chars, letter, List.all_eq_true.mp run, ?_⟩
  rw [Word.ofRun, ← chars, String.ofList_toList, found]

/-- The table has the spellings that are read, and no others. -/
theorem mem_spellings : text ∈ op.spellings ↔ ofSpelling? text = some op := by
  constructor
  · intro listed
    have table : ∀ spelling ∈ op.spellings, ofSpelling? spelling = some op := by
      rcases op with _ | (_ | _ | _ | _) <;> decide
    exact table text listed
  · intro read
    unfold ofSpelling? at read
    split at read
    · rename_i found
      cases read
      obtain ⟨symbol, listed, chars⟩ := ofSymbol?_split found
      rw [List.append_nil] at chars
      rwa [String.toList_inj.mp chars]
    · exact ofWord?_spelling read

end Operator

/-! ### Tokens as they are written -/

/-- A token in one of its spellings. -/
inductive Lexeme where
  | name (text : String) (named : isIdentifier text = true)
  | sign (op : Operator) (text : String) (listed : text ∈ op.spellings)
  | leftParen
  | rightParen

namespace Lexeme

def text : Lexeme → String
  | .name text _ => text
  | .sign _ text _ => text
  | leftParen => "("
  | rightParen => ")"

def word : Lexeme → Word
  | .name text _ => .identifier text
  | .sign op _ _ => .operator op
  | leftParen => .leftParen
  | rightParen => .rightParen

/-- A name, or an operator spelled with letters: it would run on into another such token. -/
def isWord (x : Lexeme) : Bool :=
  x.text.toList.all isIdentifierChar

/-- A token is a run of identifier characters, or it begins with a character that ends such a run and
is read whatever follows. -/
theorem run_or_symbol (x : Lexeme) :
    (∃ c more, x.text.toList = c :: more ∧ isLetter c = true ∧
      (∀ d ∈ more, isIdentifierChar d = true) ∧ Word.ofRun (c :: more) = x.word) ∨
    ∃ c more, x.text.toList = c :: more ∧ isIdentifierChar c = false ∧
      ∀ cs ws, Spells cs ws → Spells (c :: (more ++ cs)) (x.word :: ws) := by
  cases x with
  | name text named => exact Or.inl (Formula.identifier_run named)
  | sign op text listed =>
    have read := Operator.mem_spellings.mp listed
    unfold Operator.ofSpelling? at read
    split at read
    · rename_i found
      cases read
      obtain ⟨c, more, chars⟩ : ∃ c more, text.toList = c :: more := by
        cases chars : text.toList with
        | nil => rw [chars] at found; cases found
        | cons c more => exact ⟨c, more, rfl⟩
      rw [chars] at found
      refine Or.inr ⟨c, more, chars, symbol_head_stops found, fun cs ws rest => ?_⟩
      exact .symbol (symbol_append cs found) rest
    · exact Or.inl (Operator.ofWord?_run read)
  | leftParen => exact Or.inr ⟨'(', [], rfl, by decide, fun cs ws rest => .leftParen rest⟩
  | rightParen => exact Or.inr ⟨')', [], rfl, by decide, fun cs ws rest => .rightParen rest⟩

theorem isWord_of_run {x : Lexeme} {c : Char} {more : List Char} (chars : x.text.toList = c :: more)
    (letter : isLetter c = true) (run : ∀ d ∈ more, isIdentifierChar d = true) :
    x.isWord = true := by
  simpa [isWord, chars, identifierChar_of_letter letter] using run

theorem spells (x : Lexeme) {cs : List Char} {ws : List Word} (rest : Spells cs ws)
    (stops : x.isWord = true → Stops cs) : Spells (x.text.toList ++ cs) (x.word :: ws) := by
  rcases x.run_or_symbol with ⟨c, more, chars, letter, run, same⟩ | ⟨c, more, chars, -, reads⟩
  · rw [chars, ← same]
    exact .run letter run (stops (isWord_of_run chars letter run)) rest
  · rw [chars]
    exact reads cs ws rest

theorem stops (x : Lexeme) (cs : List Char) (symbol : x.isWord = false) :
    Stops (x.text.toList ++ cs) := by
  rcases x.run_or_symbol with ⟨c, more, chars, letter, run, -⟩ | ⟨c, more, chars, ends, -⟩
  · rw [isWord_of_run chars letter run] at symbol
    cases symbol
  · rw [chars]
    exact stops_cons _ ends

end Lexeme

/-! ### Layouts -/

theorem Stops.indent {gap cs : List Char} (blank : ∀ c ∈ gap, Text.isBlank c = true)
    (stops : gap = [] → Stops cs) : Stops (gap ++ cs) := by
  cases gap with
  | nil => exact stops rfl
  | cons c gap => exact stops_cons _ (blank_stops (blank c List.mem_cons_self))

/-- Tokens, each with the blanks before it, and the blanks at the end. Two words have blanks between
them. -/
structure Layout where
  pieces : List (String × Lexeme)
  last : String
  blank : ∀ gap ∈ last :: pieces.map (·.1), gap.toList.all Text.isBlank = true
  apart : pieces.IsChain fun x y => x.2.isWord = true → y.2.isWord = true → y.1 ≠ ""

namespace Layout

def text (l : Layout) : String :=
  String.join (l.pieces.map fun x => x.1 ++ x.2.text) ++ l.last

def words (l : Layout) : List Word :=
  l.pieces.map fun x => x.2.word

theorem text_toList (l : Layout) : l.text.toList =
    l.pieces.flatMap (fun x => x.1.toList ++ x.2.text.toList) ++ l.last.toList := by
  simp [text, String.toList_join, List.flatMap_map]

/-- What stands behind a word ends it: a blank, or a token that is no word. -/
theorem stops_behind {rest : List (String × Lexeme)} {last : List Char}
    (blank : ∀ gap ∈ rest.map (·.1), gap.toList.all Text.isBlank = true)
    (blanks : ∀ c ∈ last, Text.isBlank c = true)
    (apart : ∀ y ∈ rest.head?, y.2.isWord = true → y.1 ≠ "") :
    Stops (rest.flatMap (fun x => x.1.toList ++ x.2.text.toList) ++ last) := by
  cases rest with
  | nil => simpa using Stops.indent blanks fun _ => stops_nil
  | cons y rest =>
    obtain ⟨gap, y⟩ := y
    simp only [List.flatMap_cons, List.append_assoc]
    refine .indent (List.all_eq_true.mp (blank gap (by simp))) fun none => y.stops _ ?_
    have touching : gap = "" := String.toList_eq_nil_iff.mp none
    cases word : y.isWord with
    | false => rfl
    | true => exact absurd touching (apart (gap, y) rfl word)

theorem pieces_spell {pieces : List (String × Lexeme)} {last : List Char}
    (blank : ∀ gap ∈ pieces.map (·.1), gap.toList.all Text.isBlank = true)
    (blanks : ∀ c ∈ last, Text.isBlank c = true)
    (apart : pieces.IsChain fun x y => x.2.isWord = true → y.2.isWord = true → y.1 ≠ "") :
    Spells (pieces.flatMap (fun x => x.1.toList ++ x.2.text.toList) ++ last)
      (pieces.map fun x => x.2.word) := by
  induction pieces with
  | nil => simpa using Spells.nil.indent blanks
  | cons x rest ih =>
    obtain ⟨gap, x⟩ := x
    simp only [List.flatMap_cons, List.append_assoc, List.map_cons]
    have before := List.all_eq_true.mp (blank gap (by simp))
    have behind : ∀ gap ∈ rest.map (·.1), gap.toList.all Text.isBlank = true :=
      fun gap member => blank gap (List.mem_cons_of_mem _ member)
    refine .indent before (x.spells (ih behind apart.tail) fun word => ?_)
    refine stops_behind behind blanks fun y next word' => ?_
    exact List.isChain_cons.mp apart |>.1 y next word word'

theorem spells (l : Layout) : Spells l.text.toList l.words := by
  rw [text_toList]
  have blanks := List.all_eq_true.mp (l.blank l.last List.mem_cons_self)
  exact pieces_spell (fun gap member => l.blank gap (List.mem_cons_of_mem _ member)) blanks l.apart

end Layout

/-- Spelling, spacing and extra parentheses do not matter: however the words that write a tree are
spelled and spaced, the text reads to the very tree, if the limit allows what the words open. -/
theorem parse_layout (l : Layout) {t : Formula} {height : Nat} (writes : Writes l.words t height)
    {limit : Option Nat} (within : ∀ n ∈ limit, height ≤ n) :
    Formula.parse limit l.text = .ok t :=
  Formula.parse_of_writes l.spells writes within

/-- A layout without blanks but where two words meet. -/
def dense : Layout where
  pieces := [("", .leftParen), ("", .sign .not "NOT" (by decide)), (" ", .name "A" (by decide)),
    ("", .sign (.connective .iff) "<->" (by decide)), ("", .sign .not "!" (by decide)),
    ("", .leftParen), ("", .name "ORDER" (by decide)), ("", .rightParen), ("", .rightParen)]
  last := ""
  blank := by decide
  apart := by decide

theorem dense_read : dense.text = "(NOT A<->!(ORDER))" ∧
    Formula.parse (some 2) dense.text =
      .ok (.binary .iff (.neg (.atom "A")) (.neg (.atom "ORDER"))) := by
  have writes : Writes dense.words (.binary .iff (.neg (.atom "A")) (.neg (.atom "ORDER"))) 2 :=
    .binary .iff (.neg (.atom "A")) (.neg (.parens (.atom "ORDER")))
  exact ⟨by decide, parse_layout dense writes (by simp)⟩

end Premise
