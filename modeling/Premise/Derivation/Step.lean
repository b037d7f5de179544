import Premise.Text.Quoted
/-!
Derivation steps: one fact or one application of a rule, with what it was made from.
-/
namespace Premise

/-- What a step was made from: an earlier step, by its index, or a fact, by its text. -/
inductive Ref where
  | step (index : Nat)
  | fact (formula : String)
  deriving DecidableEq, Repr

/-- A step holds one formula if a rule made it; a placeholder holds none. `formulas` has no
repetitions. A step outside an arena has no index. -/
structure Step where
  provenance : String
  subtype : Option String := none
  antecedents : List Ref := []
  formulas : List String := []
  index : Option Nat := none
  deriving DecidableEq, Repr

namespace Step

def formula? (s : Step) : Option String :=
  match s.formulas with
  | [f] => some f
  | _ => none

/-- What a step made from this one records; nothing for a step without index or single formula. -/
def lineage? (s : Step) : Option Ref :=
  match s.index with
  | some i => some (.step i)
  | none => s.formula?.map .fact

/-- The mark by which texts refer to a step; steps count from one. -/
def mark (index : Nat) : String :=
  "#" ++ toString (index + 1)

def name (s : Step) : String :=
  let label := (s.index.map mark).getD "fact"
  match s.formula? with
  | some f => if f = "" then label ++ " (no formula)" else label ++ " " ++ f
  | none => label ++ " (no formula)"

def subtypeText (s : Step) : String :=
  s.subtype.getD "None"

def summary (s : Step) : String :=
  "DerivationStep(" ++ s.provenance ++ "/" ++ s.subtypeText ++ ": " ++
    (s.formula?.map Text.quoted).getD "None" ++ ")"

end Step

def Step.ofFact (formula : String) : Step where
  provenance := "FactRef"
  subtype := some "factRef"
  formulas := [formula]

/-- A step that stands for a premise under consideration. -/
def Step.proposition (formula : String) : Step where
  provenance := "Proposition"
  subtype := some "fact"
  formulas := [formula]

def Step.isProposition (s : Step) : Bool :=
  s.provenance == "Proposition"

end Premise
