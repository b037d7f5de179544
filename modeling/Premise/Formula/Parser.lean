import Premise.Token.Lexer
/-!
Reading a formula from its tokens. Equivalence binds loosest and implication next, then
disjunction, conjunction and negation; implication groups to the right and the others to the left.
The reader is a machine that takes one token at a time: a stack of open parentheses, and in each
the left operands that wait for a right one. Main definition: `Formula.ofTokens`.
-/
namespace Premise

/-- Why tokens do not make up a formula. The token is none where the text ends. -/
inductive ParseError where
  | missingOperand (found : Option Token) (position : Nat)
  | unclosed (found : Option Token) (position : Nat)
  | trailing (found : Token)
  | tooDeep (position : Nat)
  deriving DecidableEq, Repr

namespace ParseError

def position : ParseError → Nat
  | missingOperand _ p => p
  | unclosed _ p => p
  | trailing t => t.position
  | tooDeep p => p

def describe : Option Token → String
  | some t => Text.quoted t.word.text
  | none => "end of input"

def reason : ParseError → String
  | missingOperand found _ => "Expected identifier or '(' but found " ++ describe found
  | unclosed found _ => "Expected ')' but found " ++ describe found
  | trailing t => "Unexpected token " ++ describe (some t) ++ " after complete formula"
  | tooDeep _ => "Formula nests too deeply"

def message (e : ParseError) : String :=
  e.reason ++ " at position " ++ toString e.position

end ParseError

/-! ### One level of parentheses -/

/-- The left operands that wait in one level. Only one of each left-grouping connective waits at a
time; `antecedents` has the latest first. `negations` counts the negation signs just read. -/
structure Level where
  equivalent : Option Formula := none
  antecedents : List Formula := []
  disjunct : Option Formula := none
  conjunct : Option Formula := none
  negations : Nat := 0
  deriving DecidableEq, Repr

namespace Level

/-- A waiting left operand joined with what follows it. -/
def join (op : Connective) : Option Formula → Formula → Formula
  | some left, right => .binary op left right
  | none, right => right

def closeAnd (l : Level) (x : Formula) : Formula :=
  join .and l.conjunct x

def closeOr (l : Level) (x : Formula) : Formula :=
  join .or l.disjunct (l.closeAnd x)

def closeImplies (l : Level) (x : Formula) : Formula :=
  l.antecedents.foldl (fun right left => .binary .implies left right) (l.closeOr x)

/-- The formula that the level and its last operand make up. -/
def close (l : Level) (x : Formula) : Formula :=
  join .iff l.equivalent (l.closeImplies x)

/-- The level after a connective: all that binds tighter is done. -/
def extend (l : Level) (x : Formula) : Connective → Level
  | .and => { l with conjunct := some (l.closeAnd x), negations := 0 }
  | .or => { l with disjunct := some (l.closeOr x), conjunct := none, negations := 0 }
  | .implies =>
    { l with antecedents := l.closeOr x :: l.antecedents, disjunct := none, conjunct := none,
             negations := 0 }
  | .iff => { equivalent := some (l.close x) }

end Level

/-! ### The machine -/

/-- The open levels, innermost first, and the operand just read, if one was. -/
structure Parser where
  enclosing : List Level := []
  level : Level := {}
  operand : Option Formula := none
  deriving DecidableEq, Repr

namespace Parser

/-- An operand is read: the negation signs before it apply. -/
def take (enclosing : List Level) (level : Level) (x : Formula) : Parser where
  enclosing := enclosing
  level := { level with negations := 0 }
  operand := some (x.negs level.negations)

/-- What is wrong with a token, or the end, after an operand. -/
def refuse (p : Parser) (t : Token) : ParseError :=
  if p.enclosing.isEmpty then .trailing t else .unclosed (some t) t.position

def step (p : Parser) (t : Token) : Except ParseError Parser :=
  match p.operand, t.word with
  | none, .identifier name => .ok (take p.enclosing p.level (.atom name))
  | none, .operator .not =>
    .ok { p with level := { p.level with negations := p.level.negations + 1 } }
  | none, .leftParen => .ok { enclosing := p.level :: p.enclosing }
  | none, _ => .error (.missingOperand (some t) t.position)
  | some x, .operator (.connective op) =>
    .ok { p with level := p.level.extend x op, operand := none }
  | some x, .rightParen =>
    match p.enclosing with
    | outer :: rest => .ok (take rest outer (p.level.close x))
    | [] => .error (.trailing t)
  | some _, _ => .error (p.refuse t)

def finish (p : Parser) (stop : Nat) : Except ParseError Formula :=
  match p.operand, p.enclosing with
  | none, _ => .error (.missingOperand none stop)
  | some x, [] => .ok (p.level.close x)
  | some _, _ :: _ => .error (.unclosed none stop)

/-- How many formulas are open: one for each parenthesis and one for each implication whose right
side is being read. -/
def depth (p : Parser) : Nat :=
  p.enclosing.foldl (fun n l => n + 1 + l.antecedents.length) p.level.antecedents.length

/-- A step that refuses to go deeper than the limit. -/
def advance (limit : Option Nat) (p : Parser) (t : Token) : Except ParseError Parser :=
  match p.step t with
  | .ok q => if limit.any (· < q.depth) then .error (.tooDeep t.position) else .ok q
  | .error e => .error e

def run (limit : Option Nat) : Parser → List Token → Except ParseError Parser
  | p, [] => .ok p
  | p, t :: rest =>
    match p.advance limit t with
    | .ok q => q.run limit rest
    | .error e => .error e

end Parser

/-- The formula that the tokens make up, where none is open deeper than the limit. -/
def Formula.ofTokens (limit : Option Nat) (ts : Tokens) : Except ParseError Formula :=
  match Parser.run limit {} ts.list with
  | .ok p => p.finish ts.stop
  | .error e => .error e

end Premise
