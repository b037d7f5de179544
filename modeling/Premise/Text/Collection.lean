/-!
Lists of texts without repetitions, and texts in order.
-/
namespace Premise.Text

def adjoin (l : List String) (x : String) : List String :=
  if l.contains x then l else l ++ [x]

/-- Texts in the order of their characters' code points. -/
def sorted (l : List String) : List String :=
  l.mergeSort fun a b => decide (a ≤ b)

end Premise.Text
