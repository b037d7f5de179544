/-!
Paths as texts and as lists of names.
-/
namespace Premise.Text

/-- The names in a path; empty names and single dots name nothing. -/
def pathNames (path : String) : List String :=
  (path.splitOn "/").filter fun name => name != "" && name != "."

/-- What stands before the names: two slashes mean something else than one, or than more. -/
def pathRoot (path : String) : String :=
  match path.toList with
  | '/' :: '/' :: '/' :: _ => "/"
  | '/' :: '/' :: _ => "//"
  | '/' :: _ => "/"
  | _ => ""

/-- The shortest text of a path; a path without names is a single dot. -/
def plainPath (path : String) : String :=
  let plain := pathRoot path ++ "/".intercalate (pathNames path)
  if plain = "" then "." else plain

/-- Paths in order of their names: the first name that differs decides, and a path that ends earlier
comes first. -/
def pathLe : List String → List String → Bool
  | [], _ => true
  | _ :: _, [] => false
  | a :: as, b :: bs => if a = b then pathLe as bs else decide (a ≤ b)

end Premise.Text
