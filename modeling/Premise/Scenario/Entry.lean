import Premise.Logged
import Premise.Scenario.Document
/-!
Step entries of a scenario. Each entry that names a list of sources has one fate: it adds one step,
or it is skipped with a record that says why, or a source that no step holds, though its atoms are
all settled, leaves the derivation as it is. Main definition: `Derivation.takeEntries`.
-/
namespace Premise

/-- Where a source was found: the step that holds it, or the atoms that are not settled. -/
inductive Located where
  | found (step : Step)
  | unsettled (names : List String)
  | nowhere
  deriving DecidableEq, Repr

namespace Located

def step? : Located → Option Step
  | found step => some step
  | _ => none

def names : Located → List String
  | unsettled names => names
  | _ => []

end Located

/-- A known fact stands for itself; any other formula is looked up among the steps. -/
def Derivation.locate (s : Derivation) (formula : String) : Except FormulaError Located := do
  if s.facts.contains formula then return .found (Step.ofFact formula)
  match ← s.proofStep? formula with
  | some step => return .found step
  | none =>
    let names ← s.unresolved formula
    return if names.isEmpty then .nowhere else .unsettled names

/-! ### Entries -/

structure Entry where
  number : Nat
  rule : Value
  subtype : Value
  sources : List String

inductive Fate where
  | ignored
  | skipped (record : Skipped)
  | applied (step : Step)

def Fate.settle (s : Derivation) : Fate → Derivation
  | ignored => s
  | skipped record => (s.skip record).trackAll record.missing
  | applied step => s.push step

namespace Entry

def label (number : Nat) : String :=
  "Step #" ++ toString number

/-- The entry that a value describes, if it is a mapping with a list of sources. -/
def read (speaker : Speaker) (number : Nat) (v : Value) : Logged (Option Entry) := do
  match v with
  | .map _ =>
    let sources ← .ofExcept (Document.sources? number v)
    return sources.map fun sources => ⟨number, v.get "rule", v.get "subtype", sources⟩
  | _ =>
    .note speaker .warning (label number ++ " is not a mapping. Skipping.")
    return none

def record (e : Entry) (missing : List String) (error : Option String) : Skipped :=
  ⟨e.number, e.rule, e.subtype, e.sources, missing, error⟩

def locate (speaker : Speaker) (s : Derivation) (e : Entry) (formula : String) :
    Logged Located := do
  let located ← .ofExcept ((s.locate formula).mapError .formula)
  if located = .nowhere then
    .note speaker .debug (label e.number ++ ": cannot locate formula " ++ Text.quoted formula)
  return located

def infer (s : Derivation) (e : Entry) (inputs : List Step) : Except ApplyError Step := do
  let rule ← (Rule.ofName? e.rule).mapError .rule
  rule.apply s.limit inputs e.subtype

/-- What is said of an entry whose rule does not apply. -/
def complaint (e : Entry) : RuleError → String
  | .unknownRule name =>
    label e.number ++ ": " ++ (RuleError.unknownRule name).message ++ ". Skipping."
  | .unknownSubtype rule subtype =>
    label e.number ++ ": " ++ (RuleError.unknownSubtype rule subtype).message ++ ". Skipping."
  | error => label e.number ++ " failed to apply rule " ++ e.rule.shown ++ ": " ++ error.message

/-- The fate of an entry whose sources all were found. -/
def conclude (speaker : Speaker) (s : Derivation) (e : Entry) (inputs : List Step) :
    Logged Fate := do
  match e.infer s inputs with
  | .ok step => return .applied step
  | .error (.formula error) => .fail (.formula error)
  | .error (.rule error) =>
    .note speaker .warning (e.complaint error)
    return .skipped (e.record [] (some error.message))

def fate (speaker : Speaker) (s : Derivation) (e : Entry) : Logged Fate := do
  let located ← e.sources.mapM (e.locate speaker s)
  let missing := located.flatMap (·.names)
  if missing.isEmpty then
    let inputs := located.filterMap (·.step?)
    if inputs.length = e.sources.length then e.conclude speaker s inputs else return .ignored
  else return .skipped (e.record missing none)

end Entry

namespace Derivation

def takeEntry (speaker : Speaker) (s : Derivation) (number : Nat) (v : Value) :
    Logged Derivation := do
  match ← Entry.read speaker number v with
  | none => return s
  | some e => return (← e.fate speaker s).settle s

/-- Takes entries in order, from a number on. What they did before a failure remains. -/
def takeEntries (speaker : Speaker) : Derivation → Nat → List Value → Derivation × Logged Unit
  | s, _, [] => (s, pure ())
  | s, number, v :: rest =>
    let taken := s.takeEntry speaker number v
    match taken.result with
    | .error e => (s, ⟨taken.log, .error e⟩)
    | .ok t =>
      let more := t.takeEntries speaker (number + 1) rest
      (more.1, more.2.after taken.log)

end Derivation

end Premise
