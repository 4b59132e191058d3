import Formula.Text.Word

/-!
Reserved names: those that would reach the inner workings of an object. No expression may read or
bind a member of such a name.
-/

namespace Formula.Text

def underscores : Text := ofString "__"

/-- The text without one line feed at its end. -/
def dropLineFeed (text : Text) : Text :=
  if text.getLast? = some '\n'.toNat then text.dropLast else text

/-- Whether `text` ends with `finish`. -/
def endsWith (finish text : Text) : Bool := startsWith finish.reverse text.reverse

/-- Word characters with two underscores at either end. -/
def isDoubleUnderscored (text : Text) : Bool :=
  4 ≤ text.length && startsWith underscores text && endsWith underscores text &&
    text.all isWordCharacter

/-- Whether a name is reserved. A line feed at the end of a name does not matter. -/
def isReserved (name : Text) : Bool :=
  startsWith (ofString "__proto__") name ||
    (indexOf? (ofString "prototype") name).isSome ||
    endsWith (ofString "constructor") (dropLineFeed name) ||
    isDoubleUnderscored (dropLineFeed name)

end Formula.Text
