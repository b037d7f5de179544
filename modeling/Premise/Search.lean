import Premise.Log
import Premise.Rule
import Std.Data.HashSet
/-!
Bounded breadth-first proof search. A round takes a state and tries every inference on its steps; a
successor counts only if it learned something, and states of one signature are expanded once. A
bound that is hit means "not found within bounds", never a disproof. Main definition:
`Derivation.search`.
-/
namespace Premise

/-- Bounds on a search: rounds, states taken up, states waiting, and steps in a state that still
has successors. -/
structure Limits where
  maxDepth : Int := 5
  maxIterations : Int := 1000
  maxQueue : Int := 1000
  maxSteps : Int := 100
  deriving DecidableEq, Repr

inductive Halt where
  | alreadyProved
  | proved
  | missingFacts
  | iterationLimit (allowed : Int)
  | queueLimit (waiting : Nat)
  | depthLimit
  | exhausted
  deriving DecidableEq, Repr

def Halt.text : Halt → String
  | alreadyProved => "already proved"
  | proved => "proved"
  | missingFacts => "missing facts"
  | iterationLimit _ => "iteration limit"
  | queueLimit _ => "queue limit"
  | depthLimit => "depth limit"
  | exhausted => "search space exhausted"

/-- `state` is the derivation that proves the target, if one was found. -/
structure SearchResult where
  halt : Halt
  depth : Nat := 0
  path : List String := []
  missing : List String := []
  iterations : Nat := 0
  state : Option Derivation := none

def SearchResult.proven (r : SearchResult) : Bool :=
  r.state.isSome

def SearchResult.log (r : SearchResult) (target : String) : List LogEntry :=
  match r.halt with
  | .iterationLimit allowed =>
    [⟨.debug, .search, "search for " ++ target ++ " stopped: " ++ toString allowed ++
      " iterations"⟩]
  | .queueLimit waiting =>
    [⟨.debug, .search, "search for " ++ target ++ " stopped: queue holds " ++ toString waiting ++
      " states"⟩]
  | _ => []

/-! ### Successors -/

-- The order of both lists is the order of the trials.
def pairInferences : List Inference :=
  [.compose .and, .compose .implies, .compose .or, .compose .iff]

def soleInferences : List Inference :=
  [.contrapose, .introduce, .eliminate]

namespace Derivation

/-- The derivation after one inference, if it applies and its formula is new up to leading double
negations. -/
def successor? (s : Derivation) (known : List String) (inputs : List Step) (i : Inference) :
    Option Derivation :=
  match i.derive s.limit inputs with
  | .error _ => none
  | .ok step =>
    if step.formulas.any fun f => !known.contains (Formula.stripDoubleNegation f) then
      some (s.push step)
    else none

def expand (s : Derivation) (maxSteps : Int) : List Derivation :=
  if maxSteps ≤ s.steps.length then []
  else
    let known := s.known
    (s.steps.flatMap fun a => s.steps.flatMap fun b =>
      pairInferences.filterMap (s.successor? known [a, b])) ++
    s.steps.flatMap fun a => soleInferences.filterMap (s.successor? known [a])

/-! ### Search -/

structure Node where
  state : Derivation
  depth : Nat
  path : List String

inductive Round where
  | found (child : Derivation)
  | added (nodes : List Node) (seen : Std.HashSet String)

def round (target : String) (node : Node) :
    List Derivation → List Node → Std.HashSet String → Except FormulaError Round
  | [], nodes, seen => .ok (.added nodes.reverse seen)
  | child :: rest, nodes, seen => do
    if ← child.proves? target then return .found child
    let signature := child.signature
    if seen.contains signature then round target node rest nodes seen
    else
      let path := node.path ++ ["step_" ++ toString (node.depth + 1)]
      round target node rest (⟨child, node.depth + 1, path⟩ :: nodes) (seen.insert signature)

/-- Takes up waiting states one by one; `budget` is how many more may be, `taken` how many were,
and `cut` whether one was left unexpanded for its depth. -/
def explore (limits : Limits) (target : String) :
    Nat → Nat → List Node → Std.HashSet String → Bool → Except FormulaError SearchResult
  | _, taken, [], _, cut =>
    .ok { halt := if cut then .depthLimit else .exhausted, iterations := taken }
  | 0, taken, _ :: _, _, _ =>
    .ok { halt := .iterationLimit limits.maxIterations, iterations := taken + 1 }
  | budget + 1, taken, node :: waiting, seen, cut =>
    if limits.maxQueue < (waiting.length + 1 : Nat) then
      .ok { halt := .queueLimit (waiting.length + 1), iterations := taken + 1 }
    else do
      if ← node.state.proves? target then
        return {
          halt := .proved
          depth := node.depth
          path := node.path
          iterations := taken + 1
          state := some node.state }
      if limits.maxDepth ≤ node.depth then
        explore limits target budget (taken + 1) waiting seen true
      else match ← round target node (node.state.expand limits.maxSteps) [] seen with
      | .found child =>
        return {
          halt := .proved
          depth := node.depth + 1
          path := node.path ++ ["final_step"]
          iterations := taken + 1
          state := some child }
      | .added nodes seen =>
        explore limits target budget (taken + 1) (waiting ++ nodes) seen cut

/-- The outcome where there is nothing to explore: the target is proved already, or atoms of it are
not settled. -/
def settled? (s : Derivation) (target : String) : Except FormulaError (Option SearchResult) := do
  if ← s.proves? target then
    return some { halt := .alreadyProved, state := some s }
  let missing ← s.unresolved target
  return if missing.isEmpty then none else some { halt := .missingFacts, missing := missing }

def pursue (s : Derivation) (target : String) (limits : Limits) :
    Except FormulaError SearchResult :=
  explore limits target limits.maxIterations.toNat 0 [⟨s, 0, []⟩]
    (Std.HashSet.ofList [s.signature]) false

def search (s : Derivation) (target : String) (limits : Limits) :
    Except FormulaError SearchResult := do
  match ← s.settled? target with
  | some result => return result
  | none => s.pursue target limits

end Derivation

end Premise
