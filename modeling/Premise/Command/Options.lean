import Premise.Config
import Premise.Token.Lexer
/-!
The command line: one scenario file and options, which may stand before or behind it. An option may
be shortened as long as it is clear which one is meant, and its value may be attached by an equals
sign. Main definitions: `factOfText` and `Invocation.ofArguments`.
-/
namespace Premise

/-! ### Facts -/

/-- Why a text gives no fact. -/
inductive FactError where
  | notAssignment (text : String)
  | notAtom (name : String)
  deriving DecidableEq, Repr

def FactError.message : FactError → String
  | notAssignment text => "expected NAME=true|false, got " ++ Text.quoted text
  | notAtom name =>
    "fact name " ++ Text.quoted name ++ " is not an atom (letter, then letters, digits or _)"

def yesWords : List String := ["true", "1", "yes"]

def noWords : List String := ["false", "0", "no"]

/-- A name and whether it holds, from `NAME=WORD` with a word for yes or for no in any case. -/
def factOfText (text : String) : Except FactError (String × Bool) :=
  let name := Text.trim (String.ofList (text.toList.takeWhile (· ≠ '=')))
  match text.toList.dropWhile (· ≠ '=') with
  | [] => .error (.notAssignment text)
  | _ :: after =>
    let word := (Text.trim (String.ofList after)).map Char.toLower
    if !(yesWords ++ noWords).contains word then .error (.notAssignment text)
    else if !isIdentifier name then .error (.notAtom name)
    else .ok (name, yesWords.contains word)

/-! ### Flags -/

inductive Flag where
  | help
  | resolvers
  | fact
  | validate
  | selective
  | maxDepth
  | environment
  | json
  | dot
  | quiet
  | verbose
  deriving DecidableEq, Repr

namespace Flag

def all : List Flag :=
  [help, resolvers, fact, validate, selective, maxDepth, environment, json, dot, quiet, verbose]

def name : Flag → String
  | help => "--help"
  | resolvers => "--resolvers"
  | fact => "--fact"
  | validate => "--validate"
  | selective => "--selective"
  | maxDepth => "--max-depth"
  | environment => "--env"
  | json => "--json"
  | dot => "--dot"
  | quiet => "--quiet"
  | verbose => "--verbose"

def takesValue : Flag → Bool
  | resolvers | fact | maxDepth | environment | dot => true
  | _ => false

def ofName? (text : String) : Option Flag :=
  all.find? (·.name = text)

/-- The flags that a spelling may be short for. -/
def shortened (text : String) : List Flag :=
  all.filter fun f => text.toList.isPrefixOf f.name.toList

end Flag

/-- Why the arguments are refused. -/
inductive UsageError where
  | ambiguous (text : String)
  | unrecognized (texts : List String)
  | noValue (f : Flag)
  | needlessValue (f : Flag) (value : String)
  | badValue (f : Flag) (reason : String)
  | noScenario
  deriving DecidableEq, Repr

def UsageError.message : UsageError → String
  | ambiguous text => "ambiguous option: " ++ text
  | unrecognized texts => "unrecognized arguments: " ++ " ".intercalate texts
  | noValue f => "argument " ++ f.name ++ ": expected one argument"
  | needlessValue f value =>
    "argument " ++ f.name ++ ": ignored explicit argument " ++ Text.quoted value
  | badValue f reason => "argument " ++ f.name ++ ": " ++ reason
  | noScenario => "the following arguments are required: scenario"

/-! ### Arguments -/

/-- How one argument reads by itself. -/
inductive Argument where
  | plain (text : String)
  | flag (f : Flag) (attached : Option String)
  | unknown (text : String)
  | separator
  deriving DecidableEq, Repr

namespace Argument

def isDigits (cs : List Char) : Bool :=
  !cs.isEmpty && cs.all fun c => (Text.digit? c).isSome

/-- A number behind a minus sign is no option. One line feed may follow it. -/
def isNegativeNumber : List Char → Bool
  | '-' :: rest =>
    let number := if rest.getLast? = some '\n' then rest.dropLast else rest
    match number.dropWhile fun c => (Text.digit? c).isSome with
    | [] => isDigits number
    | '.' :: fraction => isDigits fraction
    | _ => false
  | _ => false

/-- The text before the first equals sign, and what follows the sign if there is one. -/
def splitValue (text : String) : String × Option String :=
  (String.ofList (text.toList.takeWhile (· ≠ '=')),
    match text.toList.dropWhile (· ≠ '=') with
    | [] => none
    | _ :: after => some (String.ofList after))

/-- Help by its short name, which may be repeated behind one dash but takes no value. -/
def shortHelp (rest : List Char) : Argument :=
  let repeated := if rest.head? = some '=' then rest.drop 1 else rest
  if rest ≠ ['='] ∧ repeated.all (· == 'h') then flag .help none
  else flag .help (some (String.ofList repeated))

/-- What begins with a dash: help by its short name, an option by its name or the front of its name,
or a plain text after all. -/
def ofDashed (text : String) : Except UsageError Argument :=
  let (spelling, attached) := splitValue text
  let fallback : Argument :=
    if isNegativeNumber text.toList || text.toList.contains ' ' then plain text else unknown text
  match text.toList, Flag.ofName? spelling with
  | ['-'], _ => .ok (plain text)
  | '-' :: 'h' :: rest, _ => .ok (shortHelp rest)
  | _, some f => .ok (flag f attached)
  | '-' :: '-' :: _, none =>
    match Flag.shortened spelling with
    | [] => .ok fallback
    | [f] => .ok (flag f attached)
    | _ => .error (.ambiguous text)
  | _, none => .ok fallback

def ofText (text : String) : Except UsageError Argument :=
  if text.toList.head? = some '-' then ofDashed text else .ok (plain text)

/-- Behind two dashes standing alone everything is plain. -/
def ofTexts : List String → Except UsageError (List Argument)
  | [] => .ok []
  | text :: rest =>
    if text = "--" then .ok (separator :: rest.map plain)
    else
      match ofText text with
      | .error e => .error e
      | .ok a => (ofTexts rest).map (a :: ·)

def shown : Argument → String
  | plain text | unknown text => text
  | separator => "--"
  | flag f _ => f.name

end Argument

/-! ### Options -/

structure Options where
  scenario : Option String := none
  resolvers : Option String := none
  facts : List (String × Bool) := []
  validate : Bool := false
  selective : Bool := false
  maxDepth : Option Int := none
  environment : Option Environment := none
  json : Bool := false
  dot : Option String := none
  quiet : Bool := false
  verbose : Bool := false
  extra : List String := []
  deriving DecidableEq, Repr

/-- What the arguments ask for. -/
inductive Invocation where
  | help
  | run (scenario : String) (options : Options)
  deriving DecidableEq, Repr

namespace Options

def turnOn (o : Options) : Flag → Options
  | .validate => { o with validate := true }
  | .selective => { o with selective := true }
  | .json => { o with json := true }
  | .quiet => { o with quiet := true }
  | .verbose => { o with verbose := true }
  | _ => o

def assign (o : Options) (f : Flag) (value : String) : Except UsageError Options :=
  match f with
  | .resolvers => .ok { o with resolvers := some value }
  | .dot => .ok { o with dot := some value }
  | .fact =>
    match factOfText value with
    | .ok fact => .ok { o with facts := o.facts ++ [fact] }
    | .error e => .error (.badValue f e.message)
  | .maxDepth =>
    match Text.integer? value with
    | some n => .ok { o with maxDepth := some n }
    | none => .error (.badValue f ("invalid int value: " ++ Text.quoted value))
  | .environment =>
    match Environment.all.find? (·.name = value) with
    | some environment => .ok { o with environment := some environment }
    | none => .error (.badValue f ("invalid choice: " ++ Text.quoted value))
  | f => .ok (o.turnOn f)

/-- What was just read: the scenario, an option whose value comes next, or neither. -/
inductive Place where
  | anywhere
  | behindScenario
  | before (f : Flag)
  deriving DecidableEq, Repr

/-- An argument that is neither a flag nor the value of one. The first plain one is the scenario,
and a separator counts only beside it. -/
def settle (o : Options) (place : Place) (a : Argument) : Options × Place :=
  match a, o.scenario with
  | .plain path, none => ({ o with scenario := some path }, .behindScenario)
  | .separator, none => (o, .anywhere)
  | .separator, some _ =>
    if place = .behindScenario then (o, .anywhere)
    else ({ o with extra := o.extra ++ [a.shown] }, .anywhere)
  | a, _ => ({ o with extra := o.extra ++ [a.shown] }, .anywhere)

/-- Takes arguments in order; none if help is asked for. -/
def take (o : Options) (place : Place) : List Argument → Except UsageError (Option Options)
  | [] =>
    match place with
    | .before f => .error (.noValue f)
    | _ => .ok (some o)
  | a :: rest =>
    match place, a with
    | .before f, .plain value =>
      match o.assign f value with
      | .ok o => o.take .anywhere rest
      | .error e => .error e
    | .before f, _ => .error (.noValue f)
    | _, .flag f (some value) =>
      if f.takesValue then
        match o.assign f value with
        | .ok o => o.take .anywhere rest
        | .error e => .error e
      else .error (.needlessValue f value)
    | _, .flag f none =>
      if f = .help then .ok none
      else if f.takesValue then o.take (.before f) rest
      else (o.turnOn f).take .anywhere rest
    | place, a => (o.settle place a).1.take (o.settle place a).2 rest

end Options

def Invocation.ofArguments (arguments : List String) : Except UsageError Invocation := do
  match ← Options.take {} .anywhere (← Argument.ofTexts arguments) with
  | none => return .help
  | some o =>
    match o.scenario, o.extra with
    | none, _ => throw .noScenario
    | some path, [] => return .run path o
    | some _, extra => throw (.unrecognized extra)

end Premise
