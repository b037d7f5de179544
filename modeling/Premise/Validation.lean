import Premise.Logged
import Premise.Scenario.Source
/-!
Static checks of scenarios. Errors make a scenario invalid; warnings are hints. Main definitions:
`Validation.ofFormula`, `Validation.ofDocument` and `Validation.ofSource`.
-/
namespace Premise

structure Validation where
  errors : List String := []
  warnings : List String := []
  deriving DecidableEq, Repr

namespace Validation

def isValid (v : Validation) : Bool :=
  v.errors.isEmpty

def summary (v : Validation) : String :=
  findingCounts v.errors.length v.warnings.length

/-- The findings of one check and then those of another. -/
def and (v w : Validation) : Validation where
  errors := v.errors ++ w.errors
  warnings := v.warnings ++ w.warnings

def all (vs : List Validation) : Validation :=
  vs.foldl and {}

def error (message : String) : Validation :=
  { errors := [message] }

def warning (message : String) : Validation :=
  { warnings := [message] }

/-- Nothing to say if a condition holds. -/
def require (condition : Bool) (finding : Validation) : Validation :=
  if condition then {} else finding

/-! ### Formulas -/

/-- Every parenthesis is closed and none is closed before it is open; `depth` are open. -/
def balancedFrom : Nat → List Char → Bool
  | depth, [] => depth == 0
  | depth, '(' :: rest => balancedFrom (depth + 1) rest
  | 0, ')' :: _ => false
  | depth + 1, ')' :: rest => balancedFrom depth rest
  | depth, _ :: rest => balancedFrom depth rest

def isBalanced (formula : String) : Bool :=
  balancedFrom 0 formula.toList

def connectiveSymbols : List String :=
  ["∧", "∨", "→", "↔", "&", "|", "->", "<->", "<=>", "=>"]

def connectiveWords : List String :=
  ["AND", "OR", "IMPLIES", "IFF"]

/-- A whole word stands at the front. Words are told apart by identifier characters alone: a text that
is a formula has no other letters or digits, and only of formulas is it asked what they mention. -/
def startsWithWord (word : String) (cs : List Char) : Bool :=
  word.toList.isPrefixOf cs && !(cs.drop word.length).head?.any isIdentifierChar

/-- A connective stands somewhere in the text; `joined` says that a word's character is before
it. -/
def mentionsFrom : Bool → List Char → Bool
  | _, [] => false
  | joined, c :: rest =>
    connectiveSymbols.any (·.toList.isPrefixOf (c :: rest)) ||
      (!joined && connectiveWords.any (startsWithWord · (c :: rest))) ||
      mentionsFrom (isIdentifierChar c) rest

def mentionsConnective (formula : String) : Bool :=
  mentionsFrom false formula.toList

/-- A formula has to be readable, and a compound one should have parentheses. -/
def ofFormula (limit : Option Nat) (formula : String) : Validation :=
  if isBalanced formula then
    match Formula.parse limit formula with
    | .error e => error ("Formula " ++ Text.quoted formula ++ " is malformed: " ++ e.message)
    | .ok _ =>
      if mentionsConnective formula && !formula.toList.contains '(' then
        warning ("Formula " ++ Text.quoted formula ++
          " may need parentheses around compound expressions")
      else {}
  else error ("Formula " ++ Text.quoted formula ++ " has unbalanced parentheses")

/-- Only text is checked here. -/
def ofFormulaValue (limit : Option Nat) : Value → Validation
  | .str formula => ofFormula limit formula
  | _ => {}

/-! ### Documents -/

/-- The items of a list; other values have none. -/
def itemsOf : Value → List Value
  | .list items => items
  | _ => []

def ofTarget (target : Value × Nat) : Validation :=
  match target.1 with
  | .str "" => error ("Target " ++ toString target.2 ++ " is not a valid string")
  | .str _ => {}
  | _ => error ("Target " ++ toString target.2 ++ " is not a valid string")

def ofTargets (targets : Value) : Validation :=
  (require (!(itemsOf targets).isEmpty)
    (error "Missing required \"targets\" field or targets array is empty")).and
    (all ((itemsOf targets).zipIdx.map ofTarget))

def ofStep (step : Value × Nat) : Validation :=
  let label := "Step " ++ toString step.2
  match step.1 with
  | .map _ =>
    (require (step.1.get "rule").isTrue (error (label ++ " missing \"rule\" field"))).and
      (match step.1.get "from" with
        | .list _ => {}
        | _ => error (label ++ " missing \"from\" array"))
  | _ => error (label ++ " must be a mapping")

def ofSteps : Value → Validation
  | .null => {}
  | .list steps => all (steps.zipIdx.map ofStep)
  | _ => error "Steps must be an array"

/-- What the step entries are made from. -/
def sourcesOf (steps : Value) : List Value :=
  (itemsOf steps).flatMap fun step => itemsOf (step.get "from")

/-- A capital, then letters and digits; one line feed may follow. -/
def isPascalCase (name : String) : Bool :=
  match name.toList with
  | [] => false
  | c :: rest =>
    let word := if rest.getLast? = some '\n' then rest.dropLast else rest
    ('A' ≤ c && c ≤ 'Z') && word.all fun d => isIdentifierChar d && d != '_'

/-- Checks names in order, each against those before it. -/
def ofPropositionItems : List String → List (Value × Nat) → Validation
  | _, [] => {}
  | seen, (.str name, _) :: rest =>
    ((require (!seen.contains name) (error ("Duplicate proposition name: " ++ name))).and
      (require (isPascalCase name)
        (warning ("Proposition " ++ Text.quoted name ++ " should use PascalCase naming")))).and
      (ofPropositionItems (name :: seen) rest)
  | seen, (_, i) :: rest =>
    (error ("Proposition " ++ toString i ++ " must be a string")).and (ofPropositionItems seen rest)

def ofPropositions : Value → Validation
  | .null => {}
  | .list names => ofPropositionItems [] names.zipIdx
  | _ => error "Propositions must be an array"

def ofDocument (limit : Option Nat) (document : Value) : Validation :=
  let targets := document.get "targets"
  let steps := document.get "steps"
  all [ofTargets targets, ofSteps steps, ofPropositions (document.get "propositions"),
    all ((itemsOf targets ++ sourcesOf steps).map (ofFormulaValue limit))]

/-! ### Files -/

/-- Validates the scenario in a file; a scenario that cannot be read is one error. -/
def ofSource (limit : Option Nat) (path : String) (source : Source) : Except Failure Validation :=
  match source.read path with
  | .ok document => .ok (ofDocument limit document)
  | .error (.scenario e) => .ok (error ("Failed to parse scenario file: " ++ e.message))
  | .error e => .error e

/-- The log entries that tell of the findings. -/
def report (v : Validation) : List LogEntry :=
  v.errors.map (fun e => ⟨.error, .validation, "  " ++ e⟩) ++
    v.warnings.map (fun w => ⟨.warning, .validation, "  " ++ w⟩) ++
    [if v.isValid then
      ⟨.info, .validation, "Scenario validation passed (" ++ v.summary ++ ")"⟩
    else ⟨.error, .validation, "Scenario validation failed (" ++ v.summary ++ ")"⟩]

/-- Validates and tells of every finding. -/
def reportSource (limit : Option Nat) (path : String) (source : Source) (verbose : Bool) :
    Logged Validation := do
  if verbose then .note .validation .info ("Validating " ++ path)
  let v ← .ofExcept (ofSource limit path source)
  .after v.report (return v)

end Validation

end Premise
