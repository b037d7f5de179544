import Premise.Command
/-!
The program: reads what its arguments name, runs the command, prints and writes.
-/
namespace Premise

/-- The variables that a configuration is read from, where they are set. -/
def readVariables : IO (List (String × String)) := do
  let names := ["GENTZEN_ENV", "GENTZEN_LOG_LEVEL"] ++ Config.numberVariables.map (·.1)
  names.filterMapM fun name => do
    return (← IO.getEnv name).map fun text => (name, text)

/-- What keeps a file from being at a path. -/
def obstacle? (path : String) : IO (Option Obstacle) := do
  let place := (← IO.currentDir) / path
  if ← place.isDir then return some .directory
  let around := place.parent.getD place
  if ← around.isDir then return none
  return some (if ← around.pathExists then .notDirectory else .absent)

def readSource (path : String) : IO Source := do
  match ← obstacle? path with
  | some why => return .blocked why
  | none =>
    let place := (← IO.currentDir) / path
    if ← place.pathExists then return .bytes (← IO.FS.readBinFile place)
    return .blocked .absent

/-- The files below a directory, by the names on the way. No module in them can be loaded here. -/
partial def filesBelow (directory : String) (names : List String) : IO (List ModuleFile) := do
  let place := (← IO.currentDir) / directory
  let mut files := []
  for entry in ← place.readDir do
    let path := directory ++ "/" ++ entry.fileName
    let names := names ++ [entry.fileName]
    if ← entry.path.isDir then
      files := files ++ (← filesBelow path names)
    else
      files := files ++ [⟨names, .error ("cannot load " ++ path)⟩]
  return files

def readModules (directory : String) : IO (Option (List ModuleFile)) := do
  if ← ((← IO.currentDir) / directory).isDir then return some (← filesBelow directory [])
  return none

def runCommand (path : String) (o : Options) : IO UInt32 := do
  let source ← readSource path
  let modules ← match o.resolvers with
    | some directory => readModules directory
    | none => pure none
  let obstacle ← match o.dot with
    | some file => obstacle? file
    | none => pure none
  let surroundings : Surroundings :=
    ⟨← readVariables, fun _ => source, fun _ => modules, fun _ => obstacle⟩
  let run := Command.run o path surroundings
  for line in Command.logLines o surroundings run.log do
    IO.eprintln line
  match run.result with
  | .error _ =>
    IO.eprintln "The run cannot be completed."
    return 1
  | .ok ending =>
    match ending.graph with
    | some (file, content) => IO.FS.writeFile file content
    | none => pure ()
    IO.print ending.out
    IO.eprint ending.err
    return ending.status.toUInt32

end Premise

open Premise in
def main (arguments : List String) : IO UInt32 := do
  match Invocation.ofArguments arguments with
  | .ok (.run path o) => runCommand path o
  | .ok .help =>
    IO.print Command.usage
    return 0
  | .error e =>
    IO.eprint (Command.usageError e)
    return 2
