import Premise.Formula
/-!
The words of a formula's text: identifiers, operators and parentheses, each with the position of
its first character.
-/
namespace Premise

inductive Operator where
  | not
  | connective (op : Connective)
  deriving DecidableEq, Repr

namespace Operator

def name : Operator → String
  | not => "not"
  | connective op => op.name

end Operator

inductive Word where
  | identifier (name : String)
  | operator (op : Operator)
  | leftParen
  | rightParen
  deriving DecidableEq, Repr

/-- A word's text, with one spelling for each operator. -/
def Word.text : Word → String
  | identifier name => name
  | operator op => op.name
  | leftParen => "("
  | rightParen => ")"

structure Token where
  word : Word
  position : Nat
  deriving DecidableEq, Repr

/-- A text cut into tokens; `stop` is where the text ends. -/
structure Tokens where
  list : List Token
  stop : Nat
  deriving DecidableEq, Repr

end Premise
