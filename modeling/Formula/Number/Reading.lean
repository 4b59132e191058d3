import Formula.Text.Numeral
import Formula.Number.Shortest

/-!
Reading numbers from text: digits of any script, blanks around the number, single underscores
between digits.
-/

namespace Formula

/-- The double nearest to `± digits · 10 ^ exponent`. -/
def Decimal.toDouble (negative : Bool) (number : Decimal) : Float :=
  if number.digits = 0 then Double.ofMagnitude negative 0
  -- Far outside the range of doubles the power of ten need not be computed.
  else if number.leading > 400 then Double.ofQuotient negative (tenTo 400) 1
  else if number.leading < -400 then Double.ofMagnitude negative 0
  else Double.ofQuotient negative (number.digits * tenTo number.exponent.toNat)
    (tenTo (-number.exponent).toNat)

namespace Reading

/-- The value of a run of digits in a base, most significant first. -/
def digitsValue (base : Nat) (digits : List Nat) : Nat :=
  digits.foldl (fun value digit => value * base + digit) 0

/-- The decimal value of plain digits. -/
def decimalValue (digits : Text) : Nat := digitsValue 10 (digits.map (· - '0'.toNat))

/-- Blanks that a number's text may begin and end with. -/
def isOuterBlank (point : CodePoint) : Bool :=
  if point < 128 then point == ' '.toNat || (9 ≤ point && point ≤ 13) else Text.isBlank point

/-- The text with the decimal digits of every script written as plain digits. -/
def plainDigits (text : Text) : Text :=
  text.map fun point => ((Text.decimalDigit? point).map (· + '0'.toNat)).getD point

/-- The text without its underscores, each of which must stand between two digits. -/
def joinDigits : Text → Option Text
  | [] => some []
  | [point] => if point = '_'.toNat then none else some [point]
  | point :: next :: rest =>
    if point = '_'.toNat then none
    else if next = '_'.toNat then
      match rest with
      | after :: _ =>
        if Text.isDigit point && Text.isDigit after then (joinDigits rest).map (point :: ·) else none
      | [] => none
    else (joinDigits (next :: rest)).map (point :: ·)

def splitSign : Text → Bool × Text
  | [] => (false, [])
  | point :: rest =>
    if point = '-'.toNat then (true, rest)
    else if point = '+'.toNat then (false, rest)
    else (false, point :: rest)

def prepare (text : Text) : Option (Bool × Text) :=
  (joinDigits (plainDigits (text.trim isOuterBlank))).map splitSign

/-- The integer that a text denotes in base ten. -/
def integer? (text : Text) : Option Int := do
  let (negative, digits) ← prepare text
  if digits ≠ [] ∧ digits.all Text.isDigit then
    let size := decimalValue digits
    some (if negative then -size else size)
  else none

/-- An exponent mark with its number, if one stands here. -/
def exponent? : Text → Option (Int × Text)
  | [] => none
  | mark :: rest =>
    if mark = 'e'.toNat || mark = 'E'.toNat then
      let (negative, digits) := splitSign rest
      let size := decimalValue (digits.takeWhile Text.isDigit)
      if (digits.takeWhile Text.isDigit).isEmpty then none
      else some (if negative then -(size : Int) else size, digits.dropWhile Text.isDigit)
    else none

/-- The decimal number at the start of a text, with what follows it: digits with at most one point,
then an exponent. -/
def decimal? (text : Text) : Option (Decimal × Text) :=
  let whole := text.takeWhile Text.isDigit
  let (fraction, rest) := match text.dropWhile Text.isDigit with
    | [] => ([], [])
    | point :: rest =>
      if point = '.'.toNat then (rest.takeWhile Text.isDigit, rest.dropWhile Text.isDigit)
      else ([], point :: rest)
  if whole.isEmpty && fraction.isEmpty then none
  else
    let digits := decimalValue (whole ++ fraction)
    let (exponent, rest) := (exponent? rest).getD (0, rest)
    some (⟨digits, exponent - fraction.length⟩, rest)

def lowerCase (text : Text) : Text :=
  text.map fun point => if 'A'.toNat ≤ point ∧ point ≤ 'Z'.toNat then point + 32 else point

/-- The double-precision number that a text denotes. -/
def double? (text : Text) : Option Float := do
  let (negative, body) ← prepare text
  let word := lowerCase body
  if word = Text.ofString "nan" then some Double.notANumber
  else if word = Text.ofString "inf" ∨ word = Text.ofString "infinity" then
    some (if negative then -Double.infinity else Double.infinity)
  else match decimal? body with
    | some (number, []) => some (number.toDouble negative)
    | _ => none

end Reading

end Formula
