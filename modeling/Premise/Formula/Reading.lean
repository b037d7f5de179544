import Premise.Formula.Parser
/-!
Formulas as texts. A text is read with a limit on nesting, none for no limit. Main definitions:
`Formula.parse`, the tree as written, `Formula.canonical`, the text of the normalized tree, and
`stripDoubleNegation`, which compares texts without reading them.
-/
namespace Premise

inductive FormulaError where
  | lex (e : LexError)
  | parse (e : ParseError)
  deriving DecidableEq, Repr

namespace FormulaError

def position : FormulaError → Nat
  | lex e => e.position
  | parse e => e.position

def message : FormulaError → String
  | lex e => e.message
  | parse e => e.message

end FormulaError

namespace Formula

/-- Formulas nest at most this deeply, unless a caller sets another limit. -/
def standardLimit : Option Nat := some 1000

/-- The tree as written. -/
def parse (limit : Option Nat) (text : String) : Except FormulaError Formula :=
  match Tokens.ofText text with
  | .error e => .error (.lex e)
  | .ok ts =>
    match ofTokens limit ts with
    | .error e => .error (.parse e)
    | .ok f => .ok f

/-- The tree without double negations; here the limit holds for the whole tree. -/
def read (limit : Option Nat) (text : String) : Except FormulaError Formula :=
  match parse limit text with
  | .error e => .error e
  | .ok f =>
    if limit.any (· < f.nesting) then .error (.parse (.tooDeep text.length)) else .ok f.normalize

/-- Two texts mean the same formula, up to double negations, when their canonical texts agree. -/
def canonical (limit : Option Nat) (text : String) : Except FormulaError String :=
  (read limit text).map render

def atomsOf (limit : Option Nat) (text : String) : Except FormulaError (List String) :=
  (read limit text).map atoms

def stripChars : List Char → List Char
  | '~' :: '~' :: rest => stripChars rest
  | cs => cs

def stripDoubleNegation (text : String) : String :=
  String.ofList (stripChars text.toList)

end Formula

end Premise
