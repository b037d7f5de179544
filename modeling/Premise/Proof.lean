import Premise.Derivation
import Premise.Text.Page
/-!
Proofs read off a derivation: the steps behind a formula, premises first, each with the number of
links over which the target led to it. Main definitions: `Derivation.extract` and
`Derivation.proofText`.
-/
namespace Premise

/-- `noStep` names the place that was looked up in vain; a step without index names none. -/
inductive ProofError where
  | formula (e : FormulaError)
  | noStep (index : Option Nat)
  deriving DecidableEq, Repr

structure ProofLine where
  ref : Ref
  depth : Nat
  deriving DecidableEq, Repr

namespace Derivation

/-- Walks back from what is pending, depth first, and puts each reference in front of the lines
when it is first met. `fuel` bounds the references taken up. -/
def walkBack (s : Derivation) :
    Nat → List ProofLine → List ProofLine → Except ProofError (List ProofLine)
  | 0, _, lines => .ok lines
  | _, [], lines => .ok lines
  | fuel + 1, line :: pending, lines =>
    if lines.any (·.ref = line.ref) then s.walkBack fuel pending lines
    else
      match line.ref with
      | .fact _ => s.walkBack fuel pending (line :: lines)
      | .step i =>
        match s.steps[i]? with
        | none => .error (.noStep (some i))
        | some step =>
          let parents := step.antecedents.map fun ref => ⟨ref, line.depth + 1⟩
          s.walkBack fuel (parents ++ pending) (line :: lines)

/-- Each step's antecedents are pending once, so no more references than these are taken up. -/
def linkCount (s : Derivation) : Nat :=
  s.steps.foldl (fun n step => n + step.antecedents.length) 0

/-- The derivation of the target, premises first; empty if no step holds it. -/
def extract (s : Derivation) (target : String) : Except ProofError (List ProofLine) :=
  match s.proofStep? target with
  | .error e => .error (.formula e)
  | .ok none => .ok []
  | .ok (some step) =>
    match step.index with
    | none => .error (.noStep none)
    | some i => s.walkBack (s.linkCount + 1) [⟨.step i, 0⟩] []

/-! ### Text -/

def refText : Ref → String
  | .step i => Step.mark i
  | .fact f => f

def sourcesText (step : Step) : String :=
  if step.antecedents.isEmpty then "  [" ++ step.provenance ++ "]"
  else "  [" ++ step.provenance ++ "/" ++ step.subtypeText ++ " from: " ++
    ", ".intercalate (step.antecedents.map refText) ++ "]"

def proofLineText (s : Derivation) (number : Nat) (line : ProofLine) : Except ProofError String :=
  let lead := "  " ++ toString number ++ ". " ++ String.ofList (List.replicate (2 * line.depth) ' ')
  match line.ref with
  | .fact f => .ok (lead ++ f ++ "  [fact]")
  | .step i =>
    match s.steps[i]? with
    | none => .error (.noStep (some i))
    | some step =>
      match step.index with
      | none => .error (.noStep none)
      | some k =>
        .ok (lead ++ Step.mark k ++ " " ++ step.formula?.getD "None" ++ sourcesText step)

def proofText (s : Derivation) (target : String) : Except ProofError String :=
  match s.extract target with
  | .error e => .error e
  | .ok [] =>
    match s.proves? target with
    | .error e => .error (.formula e)
    | .ok true => .ok (target ++ " is a known fact.\n")
    | .ok false => .ok "No proof found.\n"
  | .ok lines =>
    match Formula.canonical s.limit target with
    | .error e => .error (.formula e)
    | .ok canonical =>
      match (lines.zip (List.range lines.length)).mapM fun e =>
        s.proofLineText (e.2 + 1) e.1 with
      | .error e => .error e
      | .ok numbered =>
        .ok (Text.page (Text.heading ("PROOF of " ++ canonical) ++ numbered ++ [Text.divider]))

end Derivation

end Premise
