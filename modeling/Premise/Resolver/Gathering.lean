import Premise.Resolver.Discovery
/-!
Facts from all resolvers: those found in a directory and those given directly, which win over found
ones of the same name. Names that are no facts are dropped. Main definition: `Resolver.gather`.
-/
namespace Premise

structure Gathered where
  resolutions : Table Bool
  discovery : Discovery

namespace Resolver

/-- Everything on offer under its name. -/
def merged (d : Discovery) (custom : List (String × Resolver)) : Table Resolver :=
  Table.putAll d.resolvers custom

def refusals (speaker : Speaker) (resolvers : Table Resolver) : List LogEntry :=
  (resolvers.filter (!isFactName ·.1)).map fun e =>
    ⟨.warning, speaker, "Resolver name " ++ Text.quoted e.1 ++ " is not an atom. Skipping."⟩

/-- The resolvers to ask: those of fact names, and of required names alone if some are required. -/
def asked (required : Option (List String)) (resolvers : Table Resolver) : Table Resolver :=
  (resolvers.filter (isFactName ·.1)).filter fun e => required.all (·.contains e.1)

def gather (speaker : Speaker) (place : Option ResolverPath) (custom : List (String × Resolver))
    (required : Option (List String)) : Logged Gathered := do
  let discovery ← match place with
    | some p => if p.path = "" then pure {} else p.discover speaker
    | none => pure {}
  let offered := merged discovery custom
  let resolvers := asked required offered
  .after (refusals speaker offered ++ failures speaker resolvers)
    (return ⟨resolutions resolvers, discovery⟩)

end Resolver

end Premise
