import Formula.Text

/-!
A property of code points, given by the points at which it changes.
-/

namespace Formula.Text

/-- The property starts out false at zero and flips at each listed point, the points rising. -/
def holdsAt (changes : List CodePoint) (point : CodePoint) : Bool :=
  (changes.takeWhile (· ≤ point)).length % 2 == 1

end Formula.Text
