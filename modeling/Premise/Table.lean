/-!
Entries under names: each name once, in the order in which names were first entered.
-/
namespace Premise

abbrev Table (α : Type) := List (String × α)

namespace Table

variable {α : Type}

def has (t : Table α) (name : String) : Bool :=
  t.any (·.1 == name)

/-- Enters a value. A name that is there keeps its place. -/
def put (t : Table α) (name : String) (a : α) : Table α :=
  if t.has name then t.map fun e => if e.1 == name then (name, a) else e else t ++ [(name, a)]

/-- Enters everything in order; the last value of a name counts. -/
def putAll (t : Table α) (entries : List (String × α)) : Table α :=
  entries.foldl (fun t e => t.put e.1 e.2) t

def ofList (entries : List (String × α)) : Table α :=
  putAll [] entries

end Table

end Premise
