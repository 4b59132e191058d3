import Formula.Text
import Formula.Number.Shortest

/-!
The written form of double-precision numbers.
-/

namespace Formula

/-- How the shortest digits of a number are laid out. -/
structure NumberLayout where
  /-- The least exponent that is written out in zeros. -/
  leastFixed : Int
  /-- The first exponent that is no longer written out. -/
  firstScientific : Int
  /-- The least number of digits of a written exponent. -/
  exponentDigits : Nat
  /-- What a written-out number without a fraction ends in. -/
  wholeEnd : Text
  notANumber : Text
  infinity : Text

/-- Zeros are written out from `0.0001` up to sixteen digits before the point, a number without
fraction ends in `.0`, and exponents have a sign and two digits. -/
def NumberLayout.plain : NumberLayout :=
  { leastFixed := -4
    firstScientific := 16
    exponentDigits := 2
    wholeEnd := Text.ofString ".0"
    notANumber := Text.ofString "nan"
    infinity := Text.ofString "inf" }

namespace NumberLayout

def zeros (count : Nat) : Text := List.replicate count '0'.toNat

/-- An exponent with its sign, padded with zeros. -/
def writeExponent (least : Nat) (exponent : Int) : Text :=
  let digits := Text.ofNat exponent.natAbs
  let sign := if exponent < 0 then '-'.toNat else '+'.toNat
  'e'.toNat :: sign :: (zeros (least - digits.length) ++ digits)

/-- Digits with the point after the first. -/
def writeScientific (least : Nat) (digits : Text) (leading : Int) : Text :=
  let mantissa := match digits with
    | [] => []
    | [digit] => [digit]
    | first :: rest => first :: '.'.toNat :: rest
  mantissa ++ writeExponent least leading

/-- Digits with the point where the exponent puts it. -/
def writeFixed (layout : NumberLayout) (digits : Text) (leading : Int) : Text :=
  if leading < 0 then
    Text.ofString "0." ++ zeros (-leading - 1).toNat ++ digits
  else
    let whole := leading.toNat + 1
    if digits.length ≤ whole then digits ++ zeros (whole - digits.length) ++ layout.wholeEnd
    else digits.take whole ++ '.'.toNat :: digits.drop whole

def signed (negative : Bool) (text : Text) : Text :=
  if negative then '-'.toNat :: text else text

/-- The text of a number: the fewest digits that read back, in this layout. -/
def write (layout : NumberLayout) (number : Float) : Text :=
  match Double.kind number with
  | .notANumber => layout.notANumber
  | .infinite negative => signed negative layout.infinity
  | .finite value =>
    let decimal := Decimal.shortest value
    let digits := Text.ofNat decimal.digits
    let leading := decimal.leading
    signed value.negative
      (if layout.leastFixed ≤ leading ∧ leading < layout.firstScientific then
        writeFixed layout digits leading
      else writeScientific layout.exponentDigits digits leading)

/-- The text of a number with the given count of digits after the point and an exponent. -/
def writePlaces (layout : NumberLayout) (places : Nat) (number : Float) : Text :=
  match Double.kind number with
  | .notANumber => layout.notANumber
  | .infinite negative => signed negative layout.infinity
  | .finite value =>
    let decimal := if value.mantissa = 0 then ⟨0, 0⟩
      else Decimal.ofQuotient (value.mantissa * value.above) value.below (places + 1)
    let digits := Text.ofNat decimal.digits
    let shown := (digits ++ zeros places).take (places + 1)
    signed value.negative (writeScientific layout.exponentDigits shown decimal.leading)

end NumberLayout

end Formula
