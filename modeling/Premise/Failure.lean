import Premise.Config
import Premise.Rule
import Premise.Scenario.Error
/-!
Everything that can stop a run. A failure has a cause that a user can mend; a fault is an input
that the program has no message for.
-/
namespace Premise

inductive Fault where
  | undecodable
  | numberTooLong
  | notIterable
  | notNumber (setting : Setting)
  | unwritable (why : Obstacle)
  deriving DecidableEq, Repr

inductive Failure where
  | formula (e : FormulaError)
  | rule (e : RuleError)
  | scenario (e : ScenarioError)
  | config (e : ConfigError)
  | noResolverPath
  | fault (f : Fault)

namespace Failure

/-- The message, if the failure has one. -/
def message? : Failure → Option String
  | formula e => some e.message
  | rule e => some e.message
  | scenario e => some e.message
  | config e => some e.message
  | noResolverPath => some "resolvers_path is required: specify where your resolvers are located"
  | fault _ => none

def ofApply : ApplyError → Failure
  | .rule e => rule e
  | .formula e => formula e

end Failure

end Premise
