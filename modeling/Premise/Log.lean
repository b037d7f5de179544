/-!
Log entries: what a run reports on the side, in order.
-/
namespace Premise

inductive Severity where
  | debug
  | info
  | warning
  | error
  deriving DecidableEq, Repr

namespace Severity

def name : Severity → String
  | debug => "DEBUG"
  | info => "INFO"
  | warning => "WARNING"
  | error => "ERROR"

/-- The names of the levels at which a log shows entries of this severity. -/
def levels : Severity → List String
  | debug => ["DEBUG"]
  | info => ["DEBUG", "INFO"]
  | warning => ["DEBUG", "INFO", "WARNING"]
  | error => ["DEBUG", "INFO", "WARNING", "ERROR"]

end Severity

/-- The part of the program that speaks. -/
inductive Speaker where
  | search
  | scenario
  | validation
  | resolvers
  | reasoning
  deriving DecidableEq, Repr

structure LogEntry where
  severity : Severity
  speaker : Speaker
  message : String
  deriving DecidableEq, Repr

end Premise
