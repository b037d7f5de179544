import Premise.Reasoning
import Premise.Text.Page
/-!
Printed reports: the steps of a derivation, and the results of a run.
-/
namespace Premise

/-- How much a report shows. A negative count leaves out as many at the end. The counts may hold
any value; one that is no count is refused where a report needs it. -/
structure Display where
  maxItems : Value := .int 100
  truncate : Bool := false
  maxLength : Value := .int 200

namespace Display

def ofConfig (c : Config) : Display where
  maxItems := c.value .maxDisplayItems
  truncate := c.isOn .truncateFormulas
  maxLength := c.value .maxFormulaLength

def needed (setting : Setting) (n? : Option Int) : Except Setting Int :=
  match n? with
  | some n => .ok n
  | none => .error setting

/-- The first `n` items, or all but the last `-n`. -/
def front {α : Type} (n : Int) (items : List α) : List α :=
  if 0 ≤ n then items.take n.toNat else items.take (items.length - (-n).toNat)

/-- The items that are shown; without a count these are all. -/
def shown {α : Type} (d : Display) (items : List α) : Except Setting (List α) :=
  match d.maxItems with
  | .null => .ok items
  | v => return front (← needed .maxDisplayItems v.index?) items

/-- How many of `total` items are not shown. -/
def hidden (d : Display) (total : Nat) : Except Setting Int :=
  return total - (← needed .maxDisplayItems d.maxItems.index?)

/-- A formula cut to the length allowed, its last three characters dots. Any number bounds a
length, but only a whole one says where to cut. -/
def clip (d : Display) (formula : String) : Except Setting String := do
  if d.truncate then
    if (← needed .maxFormulaLength d.maxLength.truncated?) < formula.length then
      let length ← needed .maxFormulaLength d.maxLength.index?
      return String.ofList (front (length - 3) formula.toList) ++ "..."
  return formula

end Display

/-! ### Steps -/

def Ref.plain : Ref → String
  | step i => toString (i + 1)
  | fact f => f

def Step.report (d : Display) (s : Step) : Except Setting (List String) := do
  let sources := ", ".intercalate (s.antecedents.map Ref.plain)
  let formula := s.formula?.getD ""
  return [
    "  Step " ++ (s.index.map Step.mark).getD "" ++ ": " ++ s.provenance ++
      " [" ++ s.subtypeText ++ "]",
    "    from: " ++ (if sources = "" then "-" else sources),
    "    formula: " ++ (← d.clip (if formula = "" then "(none)" else formula))]

/-- Every step with what it was made from, up to as many as are shown. -/
def Derivation.report (d : Display) (s : Derivation) : Except Setting (List String) := do
  let steps ← (← d.shown s.steps).mapM (Step.report d)
  let hidden ← d.hidden s.steps.length
  return Text.heading "PROOF STEPS" ++ steps.flatten ++
    (if 0 < hidden then ["  ... " ++ toString hidden ++ " more steps"] else [])

/-! ### Results -/

def counted (title : String) (count : Nat) : String :=
  title ++ " (" ++ toString count ++ "):"

/-- A line of names, if there are any. -/
def namesLine (label separator : String) (names : List String) : List String :=
  if names.isEmpty then [] else [label ++ separator.intercalate names]

def Outcome.report (d : Display) (o : Outcome) : Except Setting (List String) := do
  let formula ← d.clip o.formula
  return if o.result.proven then
    ("  PROVEN: " ++ formula) :: namesLine "     path: " " → " o.result.path
  else
    ("  FAILED: " ++ formula) ::
      (if o.result.missing.isEmpty then ["     stopped: " ++ o.result.halt.text]
      else namesLine "     missing: " ", " o.result.missing)

def Skipped.report (s : Skipped × Nat) : String :=
  let reason := s.1.error.getD ("missing " ++ ", ".intercalate s.1.missing)
  "  " ++ toString s.2 ++ ". Step " ++ toString s.1.number ++ " (" ++ s.1.rule.text ++ "): " ++
    reason

namespace Results

def overview (d : Display) (r : Results) : Except Setting (List String) := do
  let facts := Text.sorted r.derivation.facts
  let missing := Text.sorted r.derivation.missing
  let skipped := r.derivation.skipped
  let shown ← d.shown facts
  let outcomes ← r.outcomes.mapM (Outcome.report d)
  return Text.heading ("Scenario: " ++ r.path) ++
    (if r.propositions.isEmpty then []
    else "Propositions:" :: r.propositions.map ("  • " ++ ·)) ++
    counted "Available facts" facts.length :: shown.map ("  ✓ " ++ ·) ++
    (if missing.isEmpty then []
    else counted "Missing facts" missing.length :: missing.map ("  ✗ " ++ ·)) ++
    ["", "Targets: " ++ toString r.provenCount ++ "/" ++ toString r.outcomes.length ++ " proven"] ++
    outcomes.flatten ++
    (if skipped.isEmpty then []
    else "" :: counted "Skipped steps" skipped.length :: (skipped.zipIdx 1).map Skipped.report)

/-- What a verbose report adds. -/
def details (d : Display) (r : Results) : Except Setting (List String) := do
  let steps ← r.derivation.report d
  return (if r.discovery.loaded.isEmpty then []
    else "" :: namesLine "Loaded resolver files: " ", " r.discovery.loaded) ++
    ["", "Fact resolutions:"] ++
    r.resolutions.map (fun e => "  " ++ (if e.2 then "✓" else "✗") ++ " " ++ e.1) ++ steps

/-- The report, or the setting of the display that cannot be used. -/
def report (d : Display) (verbose : Bool) (r : Results) : Except Setting String := do
  let overview ← r.overview d
  let details ← if verbose then r.details d else pure []
  return Text.page (overview ++ details ++ [Text.divider])

end Results

end Premise
