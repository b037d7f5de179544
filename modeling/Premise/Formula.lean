/-!
Propositional formulas: atoms, negation and four binary connectives. Main definitions: `render`,
which writes every binary formula in parentheses so that the text fixes the tree, and `normalize`,
which removes double negations and nothing else.
-/
namespace Premise

inductive Connective where
  | and
  | or
  | implies
  | iff
  deriving DecidableEq, Repr

namespace Connective

def all : List Connective := [and, or, implies, iff]

def symbol : Connective → String
  | and => "∧"
  | or => "∨"
  | implies => "→"
  | iff => "↔"

def name : Connective → String
  | and => "and"
  | or => "or"
  | implies => "implies"
  | iff => "iff"

end Connective

inductive Formula where
  | atom (name : String)
  | neg (operand : Formula)
  | binary (op : Connective) (left right : Formula)
  deriving DecidableEq, Repr

namespace Formula

/-- The text of a binary formula from the texts of its sides. -/
def joinText (op : Connective) (left right : String) : String :=
  "(" ++ left ++ " " ++ op.symbol ++ " " ++ right ++ ")"

def render : Formula → String
  | atom name => name
  | neg f => "~" ++ f.render
  | binary op l r => joinText op l.render r.render

/-- The negation, or the operand of what is a negation already. -/
def flip : Formula → Formula
  | neg f => f
  | f => neg f

/-- No negation stands directly under a negation. -/
def normalize : Formula → Formula
  | atom name => atom name
  | neg f => f.normalize.flip
  | binary op l r => binary op l.normalize r.normalize

/-- Atom names from left to right, with repetitions. -/
def leaves : Formula → List String
  | atom name => [name]
  | neg f => f.leaves
  | binary _ l r => l.leaves ++ r.leaves

/-- Atom names in order of first occurrence. -/
def atoms (f : Formula) : List String :=
  f.leaves.eraseDups

/-- How deeply binary formulas stand in one another. -/
def nesting : Formula → Nat
  | atom _ => 0
  | neg f => f.nesting
  | binary _ l r => 1 + max l.nesting r.nesting

/-- `n` negations around a formula. -/
def negs : Nat → Formula → Formula
  | 0, f => f
  | n + 1, f => neg (negs n f)

end Formula

end Premise
