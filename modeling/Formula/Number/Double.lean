import Formula.Number.Dyadic

/-!
Double-precision numbers as exact values: what a number is, the number nearest to a quotient, and
operations that are rounded once.
-/

namespace Formula

/-- What a double-precision number is. -/
inductive DoubleKind where
  | notANumber
  | infinite (negative : Bool)
  | finite (value : Dyadic)
  deriving Repr, DecidableEq

namespace Double

/-- A number read off its sign, exponent and fraction bits. -/
def kind (number : Float) : DoubleKind :=
  let bits := number.toBits.toNat
  let negative := bits / twoTo 63 == 1
  let exponent : Nat := bits / twoTo 52 % twoTo 11
  let fraction := bits % twoTo 52
  if exponent = 2047 then
    if fraction = 0 then .infinite negative else .notANumber
  else if exponent = 0 then .finite ⟨negative, fraction, -1074⟩
  else .finite ⟨negative, fraction + twoTo 52, (exponent : Int) - 1075⟩

def isFinite (number : Float) : Bool :=
  match kind number with
  | .finite _ => true
  | _ => false

def isNegative (number : Float) : Bool := number.toBits.toNat / twoTo 63 == 1

def infinity : Float := 1.0 / 0.0

def notANumber : Float := Float.ofBits 0x7FF8000000000000

/-- The number with the given sign whose size has this bit pattern. -/
def ofMagnitude (negative : Bool) (bits : Nat) : Float :=
  Float.ofBits (UInt64.ofNat (bits + if negative then twoTo 63 else 0))

def format : BinaryFormat := ⟨52, -1074, 2047⟩

/-- The number nearest to `± numerator / denominator`, infinite if the quotient is too large. -/
def ofQuotient (negative : Bool) (numerator denominator : Nat) : Float :=
  ofMagnitude negative (format.nearest numerator denominator)

/-- The number nearest to an integer, infinite if the integer is too large. -/
def ofInt (integer : Int) : Float := ofQuotient (integer < 0) integer.natAbs 1

/-- The number nearest to a dyadic one. -/
def ofDyadic (number : Dyadic) : Float :=
  ofQuotient number.negative (number.mantissa * number.above) number.below

/-- The remainder of a division that truncates, with the sign of the dividend. -/
def truncatedRemainder (dividend divisor : Float) : Float :=
  match kind dividend, kind divisor with
  | .finite left, .finite right =>
    if right.mantissa = 0 then notANumber
    else
      let unit := min left.exponent right.exponent
      let rest := (left.mantissa * twoTo (left.exponent - unit).toNat) %
        (right.mantissa * twoTo (right.exponent - unit).toNat)
      ofDyadic ⟨left.negative, rest, unit⟩
  | .finite _, .infinite _ => dividend
  | _, _ => notANumber

/-- The remainder with the sign of the divisor. -/
def flooredRemainder (dividend divisor : Float) : Float :=
  let rest := truncatedRemainder dividend divisor
  if rest == 0.0 then ofMagnitude (isNegative divisor) 0
  else if (divisor < 0.0) == (rest < 0.0) then rest else rest + divisor

/-- A product plus a number, rounded once. -/
def fusedMultiplyAdd (left right addend : Float) : Float :=
  match kind left, kind right, kind addend with
  | .finite left, .finite right, .finite addend => ofDyadic ((left.multiply right).add addend)
  | .finite _, .finite _, _ => addend
  | _, _, _ => left * right + addend

end Double

end Formula
