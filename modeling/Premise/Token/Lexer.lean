import Premise.Text.Blank
import Premise.Text.Quoted
import Premise.Token
/-!
Cutting a text into tokens. Symbols win over shorter symbols, identifiers run as far as they can,
and the five operator words count only as whole identifiers. Main definitions: `Cursor.next`, which
reads one token, and `Tokens.ofText`.
-/
namespace Premise

/-- Why a text cannot be cut into tokens. -/
inductive LexError where
  | badStart (c : Char) (position : Nat)
  | badCharacter (c : Char) (position : Nat)
  deriving DecidableEq, Repr

namespace LexError

def position : LexError → Nat
  | badStart _ p => p
  | badCharacter _ p => p

def message : LexError → String
  | badStart c p =>
    "Invalid identifier start character " ++ Text.quoted c.toString ++ " at position " ++ toString p
  | badCharacter c p =>
    "Unexpected character " ++ Text.quoted c.toString ++ " at position " ++ toString p

end LexError

/-! ### Characters and spellings -/

def isLetter (c : Char) : Bool :=
  ('a' ≤ c && c ≤ 'z') || ('A' ≤ c && c ≤ 'Z')

def isIdentifierChar (c : Char) : Bool :=
  isLetter c || ('0' ≤ c && c ≤ '9') || c == '_'

/-- An operator symbol at the front of a text, and what follows it. -/
def Operator.ofSymbol? : List Char → Option (Operator × List Char)
  | '<' :: '-' :: '>' :: rest => some (.connective .iff, rest)
  | '<' :: '=' :: '>' :: rest => some (.connective .iff, rest)
  | '-' :: '>' :: rest => some (.connective .implies, rest)
  | '=' :: '>' :: rest => some (.connective .implies, rest)
  | '∧' :: rest => some (.connective .and, rest)
  | '&' :: rest => some (.connective .and, rest)
  | '∨' :: rest => some (.connective .or, rest)
  | '|' :: rest => some (.connective .or, rest)
  | '→' :: rest => some (.connective .implies, rest)
  | '↔' :: rest => some (.connective .iff, rest)
  | '~' :: rest => some (.not, rest)
  | '!' :: rest => some (.not, rest)
  | _ => none

/-- The operators that are spelled as words. -/
def Operator.ofWord? (word : String) : Option Operator :=
  if word = "AND" then some (.connective .and)
  else if word = "OR" then some (.connective .or)
  else if word = "IMPLIES" then some (.connective .implies)
  else if word = "IFF" then some (.connective .iff)
  else if word = "NOT" then some .not
  else none

/-- Any spelling of an operator, standing alone. -/
def Operator.ofSpelling? (text : String) : Option Operator :=
  match Operator.ofSymbol? text.toList with
  | some (op, []) => some op
  | _ => Operator.ofWord? text

def Word.ofRun (run : List Char) : Word :=
  let name := String.ofList run
  match Operator.ofWord? name with
  | some op => .operator op
  | none => .identifier name

/-- Names that stand for one atom: a letter, then letters, digits or underscores, and no operator
word. -/
def isIdentifier (name : String) : Bool :=
  match name.toList with
  | [] => false
  | c :: rest => isLetter c && rest.all isIdentifierChar && (Operator.ofWord? name).isNone

/-! ### Reading one token -/

/-- A place in a text: its position and the characters from there on. -/
structure Cursor where
  position : Nat
  rest : List Char
  deriving DecidableEq, Repr

/-- What stands at a cursor. -/
inductive Scan where
  | token (t : Token) (after : Cursor)
  | stop (position : Nat)
  | invalid (e : LexError)
  deriving DecidableEq, Repr

namespace Cursor

def skipBlanks (c : Cursor) : Cursor where
  position := c.position + (c.rest.takeWhile Text.isBlank).length
  rest := c.rest.dropWhile Text.isBlank

/-- The token that begins at the cursor, where no blank stands. -/
def scan (c : Cursor) : Scan :=
  match c.rest with
  | [] => .stop c.position
  | '(' :: rest => .token ⟨.leftParen, c.position⟩ ⟨c.position + 1, rest⟩
  | ')' :: rest => .token ⟨.rightParen, c.position⟩ ⟨c.position + 1, rest⟩
  | ch :: more =>
    match Operator.ofSymbol? (ch :: more) with
    | some (op, rest) =>
      .token ⟨.operator op, c.position⟩ ⟨c.position + ((ch :: more).length - rest.length), rest⟩
    | none =>
      if isLetter ch then
        let run := ch :: more.takeWhile isIdentifierChar
        .token ⟨Word.ofRun run, c.position⟩
          ⟨c.position + run.length, more.dropWhile isIdentifierChar⟩
      else if isIdentifierChar ch then .invalid (.badStart ch c.position)
      else .invalid (.badCharacter ch c.position)

/-- The next token, past blanks. -/
def next (c : Cursor) : Scan :=
  c.skipBlanks.scan

/-! ### Every token is read past -/

theorem length_dropWhile_le {α : Type} (p : α → Bool) (l : List α) :
    (l.dropWhile p).length ≤ l.length := by
  induction l with
  | nil => simp
  | cons a l ih =>
    rw [List.dropWhile_cons]
    split
    · simp; omega
    · simp

theorem ofSymbol?_shorter {cs rest : List Char} {op : Operator}
    (read : Operator.ofSymbol? cs = some (op, rest)) : rest.length < cs.length := by
  unfold Operator.ofSymbol? at read
  split at read <;> simp_all <;> omega

theorem scan_shorter {c after : Cursor} {t : Token} (read : c.scan = .token t after) :
    after.rest.length < c.rest.length := by
  unfold scan at read
  split at read
  · cases read
  · cases read; simp_all
  · cases read; simp_all
  · rename_i ch more _ _ text
    rw [text]
    split at read
    · rename_i symbol
      cases read
      exact ofSymbol?_shorter symbol
    · split at read
      · cases read
        have := length_dropWhile_le isIdentifierChar more
        simp; omega
      · split at read <;> cases read

theorem next_shorter {c after : Cursor} {t : Token} (read : c.next = .token t after) :
    after.rest.length < c.rest.length := by
  have := scan_shorter read
  have := length_dropWhile_le Text.isBlank c.rest
  simp only [skipBlanks] at *
  omega

/-! ### Reading all tokens -/

def tokens (c : Cursor) : Except LexError Tokens :=
  match read : c.next with
  | .stop p => .ok ⟨[], p⟩
  | .invalid e => .error e
  | .token t after =>
    have := next_shorter read
    match after.tokens with
    | .ok ts => .ok ⟨t :: ts.list, ts.stop⟩
    | .error e => .error e
termination_by c.rest.length

end Cursor

def Tokens.ofText (text : String) : Except LexError Tokens :=
  Cursor.tokens ⟨0, text.toList⟩

end Premise
