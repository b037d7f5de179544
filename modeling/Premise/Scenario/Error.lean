import Premise.Text.Path
import Premise.Value
/-!
What can be wrong with a scenario before any of its formulas is read.
-/
namespace Premise

/-- Why no file can be read or written at a path: something on the way or at the end is not there,
something on the way is a file, or a directory is at the end. -/
inductive Obstacle where
  | absent
  | notDirectory
  | directory
  deriving DecidableEq, Repr

def Obstacle.text : Obstacle → String
  | absent => "[Errno 2] No such file or directory"
  | notDirectory => "[Errno 20] Not a directory"
  | directory => "[Errno 21] Is a directory"

inductive ScenarioError where
  | unreadable (path : String) (why : Obstacle)
  | invalidYaml (path : String)
  | notMapping (path : String) (found : Value)
  | notList (entry : String) (found : Value)
  | notFormula (entry : String) (found : Value)
  | invalid (path : String) (errors : List String) (warnings : Nat)

/-- How many findings of either kind a validation has. -/
def findingCounts (errors warnings : Nat) : String :=
  toString errors ++ " errors, " ++ toString warnings ++ " warnings"

namespace ScenarioError

def message : ScenarioError → String
  | unreadable path why =>
    "Cannot read scenario " ++ path ++ ": " ++ why.text ++ ": " ++ Text.quoted (Text.plainPath path)
  | invalidYaml path => "Invalid YAML in scenario " ++ path
  | notMapping path found => "Scenario " ++ path ++ " must be a mapping, got " ++ found.typeName
  | notList entry found => entry ++ " must be a list, got " ++ found.typeName
  | notFormula entry found =>
    entry ++ " is " ++ found.shown ++ ", not a formula string; quote it in the YAML"
  | invalid path errors warnings =>
    "Scenario " ++ path ++ " failed validation (" ++ findingCounts errors.length warnings ++
      "): " ++ errors.headD ""

end ScenarioError

end Premise
