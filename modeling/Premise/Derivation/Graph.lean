import Premise.Derivation
/-!
A derivation as a graph in the DOT format: facts and steps are nodes, and an edge leads from each
antecedent to the step made from it.
-/
namespace Premise.Graph

/-- Double quotes escaped, as DOT text asks. -/
def escape (s : String) : String :=
  String.ofList (s.toList.flatMap fun c => if c = '"' then ['\\', '"'] else [c])

def nodeId : Ref → String
  | .step i => "s" ++ toString (i + 1)
  | .fact f => "fact:" ++ escape f

def node (ref : Ref) (label color : String) : String :=
  "  \"" ++ nodeId ref ++ "\" [label=\"" ++ escape label ++ "\", fillcolor=" ++ color ++
    ", style=filled];\n"

def edge (source target : Ref) : String :=
  "  \"" ++ nodeId source ++ "\" -> \"" ++ nodeId target ++ "\";\n"

/-- A step's node and the edges that lead to it. -/
def stepText (i : Nat) (step : Step) : String :=
  let color := if step.isProposition then "lightgray" else "lightblue"
  node (.step i) (step.formula?.getD "") color ++
    String.join (step.antecedents.map fun ref => edge ref (.step i))

def text (s : Derivation) : String :=
  "digraph gentzen \x7b\n  rankdir=BT;\n  node [shape=box, style=rounded];\n" ++
    String.join ((Text.sorted s.facts).map fun f => node (.fact f) f "lightgreen") ++
    String.join (s.steps.map fun step => stepText (step.index.getD 0) step) ++ "\x7d\n"

end Premise.Graph
