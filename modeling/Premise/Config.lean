import Premise.Search
import Premise.Text.Digit
import Premise.Text.Uppercase
import Premise.Value
/-!
Settings in four sections, with presets for three environments. A setting may be assigned any value;
`Config.check?` says what is wrong with the first bad one. Main definitions: `Config.preset`,
`Config.ofVariables`, `Config.assign` and `Config.check?`.
-/
namespace Premise

inductive Section where
  | logging
  | reasoning
  | validation
  | display
  deriving DecidableEq, Repr

namespace Section

def all : List Section := [logging, reasoning, validation, display]

def name : Section → String
  | logging => "logging"
  | reasoning => "reasoning"
  | validation => "validation"
  | display => "display"

end Section

inductive Setting where
  | level
  | timestamps
  | labels
  | maxProofDepth
  | maxIterations
  | maxQueueSize
  | maxSteps
  | strictMode
  | warnOnInvalidFormulas
  | maxDisplayItems
  | truncateFormulas
  | maxFormulaLength
  deriving DecidableEq, Repr

namespace Setting

def all : List Setting :=
  [level, timestamps, labels, maxProofDepth, maxIterations, maxQueueSize, maxSteps, strictMode,
   warnOnInvalidFormulas, maxDisplayItems, truncateFormulas, maxFormulaLength]

def name : Setting → String
  | level => "level"
  | timestamps => "enable_timestamps"
  | labels => "enable_labels"
  | maxProofDepth => "max_proof_depth"
  | maxIterations => "max_iterations"
  | maxQueueSize => "max_queue_size"
  | maxSteps => "max_steps"
  | strictMode => "strict_mode"
  | warnOnInvalidFormulas => "warn_on_invalid_formulas"
  | maxDisplayItems => "max_display_items"
  | truncateFormulas => "truncate_formulas"
  | maxFormulaLength => "max_formula_length"

def home : Setting → Section
  | level | timestamps | labels => .logging
  | maxProofDepth | maxIterations | maxQueueSize | maxSteps => .reasoning
  | strictMode | warnOnInvalidFormulas => .validation
  | maxDisplayItems | truncateFormulas | maxFormulaLength => .display

def key (s : Setting) : String :=
  s.home.name ++ "." ++ s.name

def usual : Setting → Value
  | level => .str "INFO"
  | timestamps => .bool true
  | labels => .bool true
  | maxProofDepth => .int 5
  | maxIterations => .int 1000
  | maxQueueSize => .int 1000
  | maxSteps => .int 100
  | strictMode => .bool false
  | warnOnInvalidFormulas => .bool true
  | maxDisplayItems => .int 100
  | truncateFormulas => .bool false
  | maxFormulaLength => .int 200

/-- The least and the greatest value of a setting that holds a number. -/
def range? : Setting → Option (Int × Int)
  | maxProofDepth => some (1, 20)
  | maxIterations | maxQueueSize => some (10, 100000)
  | maxSteps => some (1, 10000)
  | maxDisplayItems => some (1, 10000)
  | maxFormulaLength => some (10, 10000)
  | _ => none

end Setting

inductive Environment where
  | development
  | test
  | production
  deriving DecidableEq, Repr

namespace Environment

def all : List Environment := [development, test, production]

def name : Environment → String
  | development => "development"
  | test => "test"
  | production => "production"

end Environment

def logLevels : List String := ["DEBUG", "INFO", "WARNING", "ERROR", "CRITICAL"]

/-! ### What can be wrong -/

inductive ConfigError where
  | unknownEnvironment (name : String)
  | unknownSection (name : String)
  | notInteger (source text : String) (setting : Setting)
  | badLevel (found : Value)
  | wrongType (setting : Setting) (found : Value)
  | outOfRange (setting : Setting) (found : Int)

namespace ConfigError

/-- The key of the setting that is to blame. -/
def key : ConfigError → String
  | unknownEnvironment _ => "environment"
  | unknownSection name => name
  | notInteger _ _ setting => setting.key
  | badLevel _ => Setting.level.key
  | wrongType setting _ => setting.key
  | outOfRange setting _ => setting.key

def choices (names : List String) : String :=
  "expected one of (" ++ ", ".intercalate (names.map Text.quoted) ++ ")"

def message : ConfigError → String
  | unknownEnvironment name =>
    "Unknown environment " ++ Text.quoted name ++ "; " ++ choices (Environment.all.map (·.name))
  | unknownSection name => "Unknown configuration section " ++ Text.quoted name
  | notInteger source text _ => source ++ "=" ++ Text.quoted text ++ " is not a valid int"
  | badLevel found => "Invalid log level " ++ found.shown ++ "; " ++ choices logLevels
  | wrongType setting found => setting.key ++ " must be an integer, got " ++ found.shown
  | outOfRange setting found =>
    let range := setting.range?.getD (0, 0)
    setting.key ++ "=" ++ toString found ++ " outside [" ++ toString range.1 ++ ", " ++
      toString range.2 ++ "]"

end ConfigError

/-! ### Configurations -/

structure Config where
  environment : Environment := .development
  value : Setting → Value := Setting.usual

namespace Config

def set (c : Config) (s : Setting) (v : Value) : Config :=
  { c with value := fun t => if t = s then v else c.value t }

def setAll (c : Config) (entries : List (Setting × Value)) : Config :=
  entries.foldl (fun c e => c.set e.1 e.2) c

/-- What an environment sets differently. -/
def tuning : Environment → List (Setting × Value)
  | .development => [(.level, .str "DEBUG"), (.strictMode, .bool true)]
  | .test => [(.level, .str "WARNING"), (.timestamps, .bool false)]
  | .production => [(.level, .str "INFO"), (.maxProofDepth, .int 3), (.strictMode, .bool true)]

def preset (environment : Environment) : Config :=
  setAll { environment := environment } (tuning environment)

def ofEnvironment (name : String) : Except ConfigError Config :=
  match Environment.all.find? (·.name = name) with
  | some environment => .ok (preset environment)
  | none => .error (.unknownEnvironment name)

def section? (name : String) : Except ConfigError Section :=
  match Section.all.find? (·.name = name) with
  | some s => .ok s
  | none => .error (.unknownSection name)

/-- The settings of a section with their values. -/
def sectionValue (c : Config) (s : Section) : Value :=
  .map ((Setting.all.filter (·.home = s)).map fun t => (.str t.name, c.value t))

def toValue (c : Config) : Value :=
  .map ((.str "environment", .str c.environment.name) ::
    Section.all.map fun s => (.str s.name, c.sectionValue s))

/-- Assigns a value, right or wrong, by names. A section holds no other settings than its own, so
another name changes nothing. -/
def assign (c : Config) (sectionName name : String) (v : Value) : Except ConfigError Config :=
  match section? sectionName with
  | .error e => .error e
  | .ok s =>
    match Setting.all.find? fun t => t.home = s ∧ t.name = name with
    | some t => .ok (c.set t v)
    | none => .ok c

/-! ### Checking -/

/-- What is wrong with the number that a setting holds, if the setting has a range. -/
def checkRange? (s : Setting) (v : Value) : Option ConfigError :=
  s.range?.bind fun range =>
    match v with
    | .int n => if range.1 ≤ n ∧ n ≤ range.2 then none else some (.outOfRange s n)
    | v => some (.wrongType s v)

def checkLevel? (v : Value) : Option ConfigError :=
  if logLevels.any fun l => v.sameKey (.str l) then none else some (.badLevel v)

/-- The first thing wrong: the log level, or a number that is none or is out of its range. -/
def check? (c : Config) : Option ConfigError :=
  (checkLevel? (c.value .level)).or (Setting.all.findSome? fun s => checkRange? s (c.value s))

/-! ### Environment variables -/

/-- The variables that set a number. -/
def numberVariables : List (String × Setting) :=
  [("GENTZEN_MAX_PROOF_DEPTH", .maxProofDepth), ("GENTZEN_MAX_ITERATIONS", .maxIterations),
   ("GENTZEN_MAX_QUEUE_SIZE", .maxQueueSize), ("GENTZEN_MAX_STEPS", .maxSteps)]

def readLevel (c : Config) (env : List (String × String)) : Config :=
  match env.lookup "GENTZEN_LOG_LEVEL" with
  | some text => c.set .level (.str (Text.uppercase text))
  | none => c

def readNumber (env : List (String × String)) (c : Config) (source : String × Setting) :
    Except ConfigError Config :=
  match env.lookup source.1 with
  | none => .ok c
  | some text =>
    match Text.integer? text with
    | some n => .ok (c.set source.2 (.int n))
    | none => .error (.notInteger source.1 text source.2)

/-- The preset that the variables name, then what they set one by one, checked. -/
def ofVariables (env : List (String × String)) : Except ConfigError Config := do
  let c ← ofEnvironment ((env.lookup "GENTZEN_ENV").getD "development")
  let c ← numberVariables.foldlM (readNumber env) (c.readLevel env)
  match c.check? with
  | some e => throw e
  | none => return c

/-! ### Use -/

def isOn (c : Config) (s : Setting) : Bool :=
  (c.value s).isTrue

/-- The bound that a setting holds, by a reading of numbers; a setting without a number is
refused. -/
def bound (c : Config) (reading : Value → Option Int) (s : Setting) : Except Setting Int :=
  match reading (c.value s) with
  | some n => .ok n
  | none => .error s

/-- The limits of a search. Its first round compares with them in this order, unless one of them
ends it: then the rest is never looked at, whatever it holds. -/
def limits (c : Config) : Except Setting Limits := do
  let iterations ← c.bound Value.truncated? .maxIterations
  if iterations < 1 then return { maxIterations := iterations }
  let queue ← c.bound Value.truncated? .maxQueueSize
  if queue < 1 then return { maxIterations := iterations, maxQueue := queue }
  let depth ← c.bound Value.ceiling? .maxProofDepth
  if depth < 1 then
    return { maxIterations := iterations, maxQueue := queue, maxDepth := depth }
  let steps ← c.bound Value.ceiling? .maxSteps
  return { maxDepth := depth, maxIterations := iterations, maxQueue := queue, maxSteps := steps }

/-- How each log line is laid out. -/
def logFormat (c : Config) : String :=
  " ".intercalate
    ((if c.isOn .timestamps then ["%(asctime)s"] else []) ++
      (if c.isOn .labels then ["%(levelname)s"] else []) ++ ["%(name)s: %(message)s"])

/-- Names of log levels, each with the one that stands for it. -/
def levelNames : List (String × String) :=
  logLevels.map (fun l => (l, l)) ++
    [("WARN", "WARNING"), ("FATAL", "CRITICAL"), ("NOTSET", "NOTSET")]

/-- Names of acts of logging, which are no levels. -/
def logActs : List String :=
  ["debug", "info", "warn", "warning", "error", "exception", "critical", "fatal", "log"]

/-- Why no log can be set up at a level. -/
inductive LevelError where
  | unknown
  | notLevel
  deriving DecidableEq, Repr

/-- The level at which a log is set up. -/
def logLevel (c : Config) : Except LevelError String :=
  match c.value .level with
  | .str name =>
    match levelNames.lookup name with
    | some level => .ok level
    | none => .error (if logActs.contains name then .notLevel else .unknown)
  | _ => .error .notLevel

end Config

end Premise
