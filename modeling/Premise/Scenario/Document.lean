import Premise.Failure
/-!
The formulas that a scenario's document names: propositions, sources of steps and targets. Main
definition: `Document.referencedAtoms`.
-/
namespace Premise.Document

/-- The texts in a list of formulas; the first item that is no text is refused. -/
def formulaItems (entry : String) : Nat → List Value → Except ScenarioError (List String)
  | _, [] => .ok []
  | i, .str formula :: rest =>
    match formulaItems entry (i + 1) rest with
    | .ok formulas => .ok (formula :: formulas)
    | .error e => .error e
  | i, v :: _ => .error (.notFormula (entry ++ "[" ++ toString i ++ "]") v)

/-- The formulas under an entry, none if it is null. -/
def formulaList (entry : String) : Value → Except Failure (List String)
  | .null => .ok []
  | .list items => (formulaItems entry 0 items).mapError .scenario
  | v => .error (.scenario (.notList entry v))

def propositions (document : Value) : Except Failure (List String) :=
  formulaList "propositions" (document.get "propositions")

def targets (document : Value) : Except Failure (List String) :=
  formulaList "targets" (document.get "targets")

/-! ### Steps -/

/-- What a value has inside: the items of a list, the characters of a text, the keys of a
mapping. -/
def contents : Value → Except Failure (List Value)
  | .list items => .ok items
  | .str s => .ok (s.toList.map fun c => .str c.toString)
  | .map entries => .ok (entries.map (·.1))
  | _ => .error (.fault .notIterable)

/-- The entries under `steps`, none if it counts as false. -/
def stepEntries (document : Value) : Except Failure (List Value) :=
  let steps := document.get "steps"
  if steps.isTrue then contents steps else .ok []

/-- The sources that a step entry names; none at all if it is no mapping or has no list of them. -/
def sources? (number : Nat) (entry : Value) : Except Failure (Option (List String)) :=
  match entry, entry.get "from" with
  | .map _, .list items =>
    (formulaList ("step #" ++ toString number ++ " from") (.list items)).map some
  | _, _ => .ok none

/-! ### Atoms -/

def atomsOfFormula (limit : Option Nat) (formula : String) : Except Failure (List String) :=
  (Formula.atomsOf limit formula).mapError .formula

def atomsOfAll (limit : Option Nat) (formulas : List String) : Except Failure (List String) := do
  return (← formulas.mapM (atomsOfFormula limit)).flatten

def atomsOfEntry (limit : Option Nat) (entry : Value × Nat) : Except Failure (List String) := do
  atomsOfAll limit ((← sources? entry.2 entry.1).getD [])

/-- Propositions as they stand, then the atoms of the steps' sources and of the targets. -/
def referencedAtoms (limit : Option Nat) (document : Value) : Except Failure (List String) := do
  let names ← propositions document
  let entries ← stepEntries document
  let used ← (entries.zipIdx 1).mapM (atomsOfEntry limit)
  let wanted ← atomsOfAll limit (← targets document)
  return (names ++ used.flatten ++ wanted).eraseDups

end Premise.Document
