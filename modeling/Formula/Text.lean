/-!
Text as a sequence of code points. Surrogates count as code points of their own, so the text of an
expression need not be valid Unicode.
-/

namespace Formula

abbrev CodePoint := Nat

abbrev Text := List CodePoint

namespace Text

def ofString (literal : String) : Text := literal.toList.map Char.toNat

instance : Coe String Text := ⟨ofString⟩

/-- The digits of a number in base ten, without leading zeros. -/
def ofNat (number : Nat) : Text := (Nat.toDigits 10 number).map Char.toNat

def ofInt : Int → Text
  | .ofNat number => ofNat number
  | .negSucc number => '-'.toNat :: ofNat (number + 1)

def isSurrogate (point : CodePoint) : Bool := 0xD800 ≤ point && point ≤ 0xDFFF

/-- The text as a string, unless it holds a surrogate. -/
def toString? (text : Text) : Option String :=
  if text.any isSurrogate then none else some (String.ofList (text.map Char.ofNat))

/-- Whether `text` begins with `start`. -/
def startsWith (start text : Text) : Bool := start.isPrefixOf text

/-- Where `part` first occurs in `text`. -/
def indexOf? (part : Text) : Text → Option Nat
  | [] => if part = [] then some 0 else none
  | point :: rest =>
    if startsWith part (point :: rest) then some 0 else (indexOf? part rest).map (· + 1)

/-- The parts one after the other, `separator` between neighbours. -/
def join (separator : Text) : List Text → Text
  | [] => []
  | [part] => part
  | part :: next :: rest => part ++ separator ++ join separator (next :: rest)

/-- `text` without the points at either end that satisfy `drop`. -/
def trim (drop : CodePoint → Bool) (text : Text) : Text :=
  ((text.dropWhile drop).reverse.dropWhile drop).reverse

/-- Lexicographic order by code point. -/
def less : Text → Text → Bool
  | _, [] => false
  | [], _ :: _ => true
  | left :: lefts, right :: rights =>
    if left = right then less lefts rights else decide (left < right)

end Text

end Formula
