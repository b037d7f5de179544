/-!
Printed pages: lines that each end in a line feed, and the headings that set their parts apart.
-/
namespace Premise.Text

def divider : String :=
  String.ofList (List.replicate 60 '=')

/-- A title between dividers, below an empty line. -/
def heading (title : String) : List String :=
  ["", divider, title, divider]

def page (lines : List String) : String :=
  String.join (lines.map (· ++ "\n"))

end Premise.Text
