import Premise.Scenario.Entry
import Premise.Scenario.Source
/-!
Scenarios: what to derive, loaded against resolved facts. A name that was resolved as false gives
its negation as a fact. Main definitions: `Scenario.factsOf` and `Scenario.ofDocument`.
-/
namespace Premise

structure Scenario where
  derivation : Derivation
  targets : List String
  propositions : List String
  referenced : List String

namespace Scenario

/-- The fact that a resolution gives; of a negated name that is false there is none. -/
def factOf? (name : String) (holds : Bool) : Option String :=
  if holds then some name
  else
    match name.toList with
    | '~' :: _ => none
    | _ => some ("~" ++ name)

def factsOf (resolutions : List (String × Bool)) : List String :=
  resolutions.filterMap fun r => factOf? r.1 r.2

/-- Facts and premises, before any step entry is taken. -/
def start (limit : Option Nat) (resolutions : List (String × Bool)) (propositions : List String) :
    Derivation :=
  let known := (factsOf resolutions).foldl Derivation.addFact { limit := limit }
  propositions.foldl (fun s p => s.push (Step.proposition p)) known

def ofDocument (speaker : Speaker) (limit : Option Nat) (resolutions : List (String × Bool))
    (document : Value) : Logged Scenario := do
  let referenced ← .ofExcept (Document.referencedAtoms limit document)
  let propositions ← .ofExcept (Document.propositions document)
  let entries ← .ofExcept (Document.stepEntries document)
  let targets ← .ofExcept (Document.targets document)
  let taken := (start limit resolutions propositions).takeEntries speaker 1 entries
  let _ ← taken.2
  return ⟨taken.1, targets, propositions, referenced⟩

/-- Loads the scenario in a file. -/
def load (speaker : Speaker) (limit : Option Nat) (path : String) (source : Source)
    (resolutions : List (String × Bool)) : Logged Scenario := do
  ofDocument speaker limit resolutions (← .ofExcept (source.read path))

end Scenario

end Premise
