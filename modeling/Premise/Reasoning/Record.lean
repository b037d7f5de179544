import Premise.Derivation.Record
import Premise.Reasoning
/-!
Results of a run as plain data.
-/
namespace Premise

def Outcome.toValue (o : Outcome) : Value :=
  .record [
    ("formula", .str o.formula),
    ("proven", .bool o.result.proven),
    ("depth", .int o.result.depth),
    ("missing_facts", .texts o.result.missing),
    ("path", .texts o.result.path),
    ("halt_reason", .str o.result.halt.text)]

def Validation.toValue (v : Validation) : Value :=
  .record [
    ("is_valid", .bool v.isValid),
    ("errors", .texts v.errors),
    ("warnings", .texts v.warnings)]

namespace Results

def summary (r : Results) : Value :=
  .record [
    ("total_targets", .int r.outcomes.length),
    ("proven_targets", .int r.provenCount),
    ("available_facts", .int r.derivation.facts.length),
    ("missing_facts", .int r.derivation.missing.length),
    ("skipped_steps", .int r.derivation.skipped.length),
    ("loaded_files", .texts r.discovery.loaded),
    ("total_resolvers", .int r.discovery.resolvers.length)]

/-- Everything but the resolutions, the validation and the derivation. -/
def mainEntries (r : Results) : List (String × Value) := [
  ("scenario_path", .str r.path),
  ("propositions", .texts r.propositions),
  ("targets", .list (r.outcomes.map Outcome.toValue)),
  ("summary", r.summary),
  ("available_facts", .texts (Text.sorted r.derivation.facts)),
  ("missing_facts", .texts (Text.sorted r.derivation.missing)),
  ("skipped_steps", .list (r.derivation.skipped.map Skipped.toValue))]

def toValue (r : Results) : Value :=
  .record (r.mainEntries ++
    [("fact_resolutions", .record (r.resolutions.map fun e => (e.1, .bool e.2)))] ++
    (r.validation.map fun v => ("validation", v.toValue)).toList)

end Results

end Premise
