import Premise.Command.Options
import Premise.Derivation.Graph
import Premise.Reasoning.Record
import Premise.Report
import Premise.Value.Json
import Premise.Yaml.Reader
/-!
The command: reads options, runs the scenario and says what to print. The status is zero if every
target is proven, one if some target is not, and two if something is malformed. Main definition:
`Command.run`.
-/
namespace Premise

/-- A file as a command finds it, with the reader of this library for its YAML. -/
def Source.bytes (content : ByteArray) : Source :=
  .file content Yaml.read?

/-- What a command can see: environment variables, files, directories of modules, and why no file
could be written at a path. -/
structure Surroundings where
  env : List (String × String)
  source : String → Source
  modules? : String → Option (List ModuleFile)
  obstacle? : String → Option Obstacle

/-- What a command leaves behind; `graph` is a file to write, by name and content. -/
structure Ending where
  status : Nat
  out : String := ""
  err : String := ""
  graph : Option (String × String) := none

namespace Options

/-- The value of an option that was given and is not empty. -/
def given (value : Option String) : Option String :=
  value.filter (· ≠ "")

/-- The configuration: a preset or what the variables say, then what the options say, checked. -/
def config (o : Options) (env : List (String × String)) : Except ConfigError Config := do
  let c ← match o.environment with
    | some environment => pure (Config.preset environment)
    | none => Config.ofVariables env
  let c := match o.maxDepth with
    | some n => c.set .maxProofDepth (.int n)
    | none => c
  let c := if o.quiet then c.set .level (.str "WARNING") else c
  match c.check? with
  | some e => throw e
  | none => return c

def task (o : Options) (path : String) (config : Config) (s : Surroundings) : Task where
  path := path
  source := s.source path
  resolvers := (given o.resolvers).map fun place => ⟨place, s.modules? place⟩
  custom := (Table.ofList o.facts).map fun fact => (fact.1, .value (.bool fact.2))
  validate := o.validate
  selective := o.selective
  config := config

end Options

def Config.logLine? (c : Config) (e : LogEntry) : Option String :=
  if e.severity.levels.contains (c.value .level).text then
    some ((if c.isOn .labels then e.severity.name ++ " " else "") ++ e.message)
  else none

namespace Command

def shown (o : Options) (config : Config) (r : Results) : Except Fault String :=
  if o.json then .ok (r.toValue.jsonIndented ++ "\n")
  else (r.report (Display.ofConfig config) o.verbose).mapError .notNumber

def conclude (o : Options) (config : Config) (s : Surroundings) (r : Results) :
    Except Fault Ending := do
  let out ← shown o config r
  let status := if r.allProven then 0 else 1
  match Options.given o.dot with
  | none => return { status := status, out := out }
  | some path =>
    match s.obstacle? path with
    | some why => throw (.unwritable why)
    | none =>
      return {
        status := status
        out := out ++ if o.json then "" else "Graph exported to " ++ path ++ "\n"
        graph := some (path, Graph.text r.derivation) }

/-- Runs the scenario under a configuration. A failure with a message ends the command; a fault has
no message and remains a failure. -/
def runWith (o : Options) (path : String) (config : Config) (s : Surroundings) : Logged Ending :=
  let run := (o.task path config s).run
  ⟨run.log,
    match run.result with
    | .ok r => (conclude o config s r).mapError .fault
    | .error e =>
      match e.message? with
      | some message => .ok { status := 2, err := "Error: " ++ message ++ "\n" }
      | none => .error e⟩

def run (o : Options) (path : String) (s : Surroundings) : Logged Ending :=
  match o.config s.env with
  | .error e => return { status := 2, err := "Configuration error: " ++ e.message ++ "\n" }
  | .ok config => runWith o path config s

def logLines (o : Options) (s : Surroundings) (log : List LogEntry) : List String :=
  match o.config s.env with
  | .error _ => []
  | .ok config => log.filterMap config.logLine?

def usage : String :=
  "usage: gentzen SCENARIO [--resolvers DIRECTORY] [--fact NAME=BOOL] [--validate]\n" ++
    "               [--selective] [--max-depth N] [--env NAME] [--json] [--dot FILE]\n" ++
    "               [--quiet] [--verbose]\n"

def usageError (e : UsageError) : String :=
  usage ++ "gentzen: error: " ++ e.message ++ "\n"

def start (arguments : List String) (s : Surroundings) : Logged Ending :=
  match Invocation.ofArguments arguments with
  | .error e => return { status := 2, err := usageError e }
  | .ok .help => return { status := 0, out := usage }
  | .ok (.run path o) => run o path s

end Command

end Premise
