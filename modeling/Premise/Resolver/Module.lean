import Premise.Resolver
/-!
Modules that offer resolvers: functions of their own, and the functions in their tables. A module
may list the names that it exports; then these count, and functions from elsewhere too. Main
definition: `ResolverModule.offers`.
-/
namespace Premise

/-- What a name in a module stands for. The entries of a table that are no functions are none. -/
inductive Member where
  | function (own : Bool) (resolver : Resolver)
  | table (entries : Table (Option Resolver))
  | other

structure ResolverModule where
  members : Table Member
  exports : Option (List String) := none

namespace ResolverModule

def isPublic (name : String) : Bool :=
  name.toList.head? != some '_'

/-- The names to look at, in order. -/
def names (m : ResolverModule) : List String :=
  m.exports.getD ((m.members.map (·.1)).filter isPublic)

/-- The resolvers under a name. -/
def offersOf (m : ResolverModule) (name : String) : List (String × Resolver) :=
  match m.members.lookup name with
  | some (.function own resolver) => if own || m.exports.isSome then [(name, resolver)] else []
  | some (.table entries) => entries.filterMap fun e => e.2.map fun resolver => (e.1, resolver)
  | _ => []

def offers (m : ResolverModule) : Table Resolver :=
  .ofList (m.names.flatMap m.offersOf)

end ResolverModule

end Premise
