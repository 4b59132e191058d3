import Formula.Text.Printable

/-!
Quoted text: the form that messages show, and the form that reads back as a string literal.
-/

namespace Formula.Text

def hexDigit (value : Nat) : CodePoint :=
  if value < 10 then '0'.toNat + value else 'a'.toNat + (value - 10)

/-- The last `width` digits of a number in base sixteen. -/
def hex (width value : Nat) : Text :=
  (List.range width).reverse.map fun place => hexDigit (value / Nat.pow 16 place % 16)

/-- A code point by the shortest of the numeric escapes that can hold it. -/
def numericEscape (point : CodePoint) : Text :=
  if point < 0x100 then ofString "\\x" ++ hex 2 point
  else if point < 0x10000 then ofString "\\u" ++ hex 4 point
  else ofString "\\U" ++ hex 8 point

/-- A code point inside a quoted text: backslash and the quote in use are escaped, and all that is
not printable. -/
def showPoint (quote point : CodePoint) : Text :=
  if point = quote ∨ point = '\\'.toNat then ['\\'.toNat, point]
  else if point = '\n'.toNat then ofString "\\n"
  else if point = '\r'.toNat then ofString "\\r"
  else if point = '\t'.toNat then ofString "\\t"
  else if isPrintable point then [point]
  else numericEscape point

/-- Quoted for a message: in single quotes, in double quotes if only single ones occur inside. -/
def shown (text : Text) : Text :=
  let quote :=
    if text.contains '\''.toNat && !text.contains '"'.toNat then '"'.toNat else '\''.toNat
  quote :: text.flatMap (showPoint quote) ++ [quote]

/-- A code point inside a string literal: quote and backslash are escaped, the characters below the
space, and the two line separators. -/
def literalPoint (point : CodePoint) : Text :=
  if point = '"'.toNat ∨ point = '\\'.toNat then ['\\'.toNat, point]
  else if point = '\n'.toNat then ofString "\\n"
  else if point = '\r'.toNat then ofString "\\r"
  else if point = '\t'.toNat then ofString "\\t"
  else if point = 8 then ofString "\\b"
  else if point = 12 then ofString "\\f"
  else if point < ' '.toNat ∨ point = 0x2028 ∨ point = 0x2029 then ofString "\\u" ++ hex 4 point
  else [point]

/-- The string literal of a text, in double quotes. -/
def literal (text : Text) : Text :=
  '"'.toNat :: text.flatMap literalPoint ++ ['"'.toNat]

end Formula.Text
