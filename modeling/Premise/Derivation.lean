import Premise.Derivation.Step
import Premise.Formula.Reading
import Premise.Text.Collection
import Premise.Value
/-!
Derivations: known facts and an arena of steps that only grows. Main definitions:
`Derivation.proves?`, whether a fact or a derived step holds a formula up to double negations, and
`Derivation.signature`, the text that identifies a body of knowledge.
-/
namespace Premise

/-- A scenario entry that made no step: for want of facts, or for the reason in `error`. -/
structure Skipped where
  number : Nat
  rule : Value
  subtype : Value
  sources : List String
  missing : List String := []
  error : Option String := none

/-- `facts` and `missing` have no repetitions. Steps enter by `push`, which numbers them; records,
listings and graphs rely on that. Formulas are read under the nesting limit. -/
structure Derivation where
  facts : List String := []
  steps : List Step := []
  missing : List String := []
  skipped : List Skipped := []
  limit : Option Nat := Formula.standardLimit

namespace Derivation

/-! ### Growing -/

def addFact (s : Derivation) (formula : String) : Derivation :=
  { s with facts := Text.adjoin s.facts formula }

def trackMissing (s : Derivation) (name : String) : Derivation :=
  { s with missing := Text.adjoin s.missing name }

def trackAll (s : Derivation) (names : List String) : Derivation :=
  names.foldl trackMissing s

def skip (s : Derivation) (entry : Skipped) : Derivation :=
  { s with skipped := s.skipped ++ [entry] }

def number (s : Derivation) (step : Step) : Step :=
  { step with index := some s.steps.length }

def push (s : Derivation) (step : Step) : Derivation :=
  { s with steps := s.steps ++ [s.number step] }

def ofFactMap (available : List (String × Bool)) : Derivation :=
  available.foldl (fun s e => if e.2 then s.addFact e.1 else s) {}

/-! ### What is there -/

def formulas (s : Derivation) : List String :=
  s.facts ++ s.steps.flatMap (·.formulas)

/-- Facts and derived formulas. A proposition is a premise under consideration, not established. -/
def established (s : Derivation) : List String :=
  s.facts ++ (s.steps.filter (!·.isProposition)).flatMap (·.formulas)

def available (s : Derivation) (name : String) : Bool :=
  s.facts.contains name || s.steps.any (·.formulas.contains name)

/-- Negation as failure: a name is settled when it or its negation is available, and a negated name
also when the name is not. -/
def resolvable (s : Derivation) (name : String) : Bool :=
  s.available name ||
    match name.toList with
    | '~' :: rest => !s.available (String.ofList rest)
    | _ => s.available ("~" ++ name)

def unresolved (s : Derivation) (formula : String) : Except FormulaError (List String) := do
  let names ← Formula.atomsOf s.limit formula
  return (names.filter (!s.resolvable ·)).map fun name =>
    String.ofList (name.toList.dropWhile (· == '~'))

def matches? (s : Derivation) (canonical text : String) : Except FormulaError Bool := do
  return (← Formula.canonical s.limit text) == canonical

/-- Does a fact or a derived step hold the target? Looks no further than the first that does. -/
def proves? (s : Derivation) (target : String) : Except FormulaError Bool := do
  let canonical ← Formula.canonical s.limit target
  s.established.anyM (s.matches? canonical)

/-- The steps that hold the formula. Every step is read. -/
def stepsHolding (s : Derivation) (formula : String) : Except FormulaError (List Step) := do
  let canonical ← Formula.canonical s.limit formula
  s.steps.filterM fun step => step.formulas.anyM (s.matches? canonical)

def proofStep? (s : Derivation) (formula : String) : Except FormulaError (Option Step) := do
  return (← s.stepsHolding formula).head?

/-! ### Identity -/

def known (s : Derivation) : List String :=
  (s.formulas.map Formula.stripDoubleNegation).eraseDups

def signature (s : Derivation) : String :=
  " | ".intercalate (Text.sorted s.known)

end Derivation

end Premise
