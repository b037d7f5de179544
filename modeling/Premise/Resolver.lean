import Premise.Log
import Premise.Table
import Premise.Token.Lexer
import Premise.Value
/-!
Resolvers: where facts come from. Asking one gives a value, which holds or does not, or fails, which
counts as not holding. Main definitions: `Resolver.resolutions` and `Resolver.failures`.
-/
namespace Premise

/-- What a resolver says whenever it is asked. -/
inductive Resolver where
  | value (v : Value)
  | failure (message : String)

namespace Resolver

def holds : Resolver → Bool
  | value v => v.isTrue
  | failure _ => false

def resolutions (resolvers : Table Resolver) : Table Bool :=
  resolvers.map fun e => (e.1, e.2.holds)

def failures (speaker : Speaker) (resolvers : Table Resolver) : List LogEntry :=
  resolvers.filterMap fun e =>
    match e.2 with
    | value _ => none
    | failure message =>
      some ⟨.warning, speaker,
        "Fact resolver for " ++ Text.quoted e.1 ++ " failed: " ++ message⟩

/-- Names of facts: an identifier, or one behind a negation sign. -/
def isFactName (name : String) : Bool :=
  match name.toList with
  | '~' :: rest => isIdentifier (String.ofList rest)
  | _ => isIdentifier name

end Resolver

end Premise
