import Premise.Resolver.Gathering
import Premise.Scenario
import Premise.Validation
/-!
Reasoning over one scenario: resolve facts, load the scenario, search for every target. Main
definitions: `Derivation.evaluate` and `Task.run`.
-/
namespace Premise

/-! ### Targets -/

structure Outcome where
  formula : String
  result : SearchResult

/-- Searches under the limits of a configuration, which have to be numbers only where there is
something to explore. -/
def Derivation.searchUnder (config : Config) (s : Derivation) (target : String) :
    Except Failure SearchResult :=
  match config.limits with
  | .ok limits => (s.search target limits).mapError .formula
  | .error setting =>
    match s.settled? target with
    | .error e => .error (.formula e)
    | .ok (some result) => .ok result
    | .ok none => .error (.fault (.notNumber setting))

/-- Searches for one target. Atoms found unsettled are tracked. -/
def Derivation.evaluateTarget (config : Config) (s : Derivation) (target : String) :
    Derivation × Logged Outcome :=
  match s.searchUnder config target with
  | .error e => (s, .fail e)
  | .ok result => (s.trackAll result.missing, ⟨result.log target, .ok ⟨target, result⟩⟩)

/-- Searches for each target in turn. What was tracked before a failure remains. -/
def Derivation.evaluate (config : Config) :
    Derivation → List String → Derivation × Logged (List Outcome)
  | s, [] => (s, pure [])
  | s, target :: rest =>
    let first := s.evaluateTarget config target
    match first.2.result with
    | .error e => (first.1, ⟨first.2.log, .error e⟩)
    | .ok outcome =>
      let more := first.1.evaluate config rest
      (more.1, (do return outcome :: (← more.2) : Logged (List Outcome)).after first.2.log)

/-! ### Runs -/

/-- What to run: a scenario file, where to look for resolvers, and resolvers given directly. Under
`selective`, only resolvers for atoms of the scenario are asked. -/
structure Task where
  path : String
  source : Source
  resolvers : Option ResolverPath := none
  custom : List (String × Resolver) := []
  validate : Bool := false
  selective : Bool := false
  config : Config := {}
  limit : Option Nat := Formula.standardLimit

structure Results where
  path : String
  propositions : List String
  outcomes : List Outcome
  derivation : Derivation
  resolutions : Table Bool
  discovery : Discovery
  validation : Option Validation

namespace Task

def findings (t : Task) (v : Validation) : List LogEntry :=
  let severity := if t.config.isOn .warnOnInvalidFormulas then .warning else .debug
  v.errors.map (fun e => ⟨.warning, .reasoning, "Scenario validation: " ++ e⟩) ++
    v.warnings.map (fun w => ⟨severity, .reasoning, "Scenario validation: " ++ w⟩)

/-- Validates the scenario if that was asked for; in strict mode its errors end the run. -/
def check (t : Task) : Logged (Option Validation) := do
  if t.validate then
    let v ← .ofExcept (Validation.ofSource t.limit t.path t.source)
    .after (t.findings v)
      (if t.config.isOn .strictMode && !v.isValid then
        .fail (.scenario (.invalid t.path v.errors v.warnings.length))
      else return some v)
  else return none

def hasResolverPath (t : Task) : Bool :=
  t.resolvers.any (·.path != "")

/-- The names whose resolvers alone will be asked, or none if all will be. A scenario that cannot
be read this far is no failure yet. -/
def required (t : Task) : Logged (Option (List String)) := do
  if t.selective && t.hasResolverPath then
    match t.source.read t.path >>= Document.referencedAtoms t.limit with
    | .ok atoms =>
      .note .reasoning .info
        ("Selective resolution: " ++ toString atoms.length ++ " atoms required")
      return some atoms
    | .error e =>
      match e.message? with
      | some message =>
        .note .reasoning .warning ("Failed to extract atoms for selective resolution: " ++ message)
        return none
      | none => .fail e
  else return none

/-- The run, apart from the log entry that tells of its failure. -/
def attempt (t : Task) : Logged Results := do
  let validation ← t.check
  let required ← t.required
  let gathered ← Resolver.gather .reasoning t.resolvers t.custom required
  let scenario ← Scenario.load .reasoning t.limit t.path t.source gathered.resolutions
  let evaluated := scenario.derivation.evaluate t.config scenario.targets
  return {
    path := t.path
    propositions := scenario.propositions
    outcomes := ← evaluated.2
    derivation := evaluated.1
    resolutions := gathered.resolutions
    discovery := gathered.discovery
    validation := validation }

def farewell : Except Failure Results → List LogEntry
  | .error e =>
    (e.message?.map fun m => ⟨.error, .reasoning, "Error running Gentzen reasoning: " ++ m⟩).toList
  | .ok _ => []

def run (t : Task) : Logged Results :=
  let r := t.attempt
  ⟨r.log ++ farewell r.result, r.result⟩

end Task

namespace Results

def provenCount (r : Results) : Nat :=
  (r.outcomes.filter (·.result.proven)).length

def allProven (r : Results) : Bool :=
  r.outcomes.all (·.result.proven)

end Results

end Premise
