import Premise.Derivation
/-!
Derivations as plain data. Steps count from one here.
-/
namespace Premise

def Ref.toValue : Ref → Value
  | step i => .int (i + 1 : Nat)
  | fact f => .str f

def Step.toValue (s : Step) : Value :=
  .record [
    ("number", .int ((s.index.map (· + 1)).getD 0 : Nat)),
    ("provenance", .str s.provenance),
    ("subtype", .textOrNull s.subtype),
    ("from", .list (s.antecedents.map Ref.toValue)),
    ("formula", .textOrNull s.formula?)]

def Skipped.toValue (s : Skipped) : Value :=
  .record ([
    ("step_index", .int s.number),
    ("rule", s.rule),
    ("subtype", s.subtype),
    ("from", .texts s.sources),
    ("missing_facts", .texts s.missing)] ++ (s.error.map fun e => ("error", .str e)).toList)

def Derivation.toValue (s : Derivation) : Value :=
  .record [
    ("facts", .texts (Text.sorted s.facts)),
    ("steps", .list (s.steps.map Step.toValue)),
    ("missing_facts", .texts (Text.sorted s.missing)),
    ("skipped_steps", .list (s.skipped.map Skipped.toValue))]

end Premise
