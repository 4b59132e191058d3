import Formula.Number.Power

/-!
Dyadic numbers, which are exact, and the binary formats that hold the nearest of them to a quotient.
Everything is computed in unbounded integers.
-/

namespace Formula

/-- The number `mantissa · 2 ^ exponent`, negated if `negative`. -/
structure Dyadic where
  negative : Bool
  mantissa : Nat
  exponent : Int
  deriving Repr, DecidableEq

namespace Dyadic

/-- The factor that `2 ^ exponent` puts above the fraction bar. -/
def above (number : Dyadic) : Nat := twoTo number.exponent.toNat

/-- The factor that `2 ^ exponent` puts below the fraction bar. -/
def below (number : Dyadic) : Nat := twoTo (-number.exponent).toNat

/-- The signed integer over `below` that equals the number. -/
def scaled (number : Dyadic) : Int :=
  let size : Int := (number.mantissa * number.above : Nat)
  if number.negative then -size else size

def isIntegral (number : Dyadic) : Bool := number.scaled.emod number.below == 0

/-- The greatest integer that is not above the number. -/
def floor (number : Dyadic) : Int := number.scaled.fdiv number.below

/-- The least integer that is not below the number. -/
def ceiling (number : Dyadic) : Int := -((-number.scaled).fdiv number.below)

/-- The integer part, the fraction dropped. -/
def truncate (number : Dyadic) : Int := number.scaled.tdiv number.below

def compareInt (number : Dyadic) (integer : Int) : Ordering :=
  compare number.scaled (integer * number.below)

/-- How often `2 ^ unit` goes into the number, for a unit that divides it. -/
def count (number : Dyadic) (unit : Int) : Int :=
  let size : Int := (number.mantissa * twoTo (number.exponent - unit).toNat : Nat)
  if number.negative then -size else size

/-- The exact sum. It is a negative zero only if both numbers are. -/
def add (left right : Dyadic) : Dyadic :=
  let unit := min left.exponent right.exponent
  let sum := left.count unit + right.count unit
  ⟨if sum = 0 then left.negative && right.negative else sum < 0, sum.natAbs, unit⟩

/-- The exact product. -/
def multiply (left right : Dyadic) : Dyadic :=
  ⟨left.negative != right.negative, left.mantissa * right.mantissa, left.exponent + right.exponent⟩

end Dyadic

/-- The integer nearest to a quotient; of two nearest the even one. -/
def nearestQuotient (numerator denominator : Nat) : Nat :=
  let quotient := numerator / denominator
  let rest := 2 * (numerator % denominator)
  if rest < denominator then quotient
  else if rest = denominator then quotient + quotient % 2
  else quotient + 1

/-- The floor of the base-two logarithm of a quotient of positive numbers. -/
def binaryExponent (numerator denominator : Nat) : Int :=
  let guess : Int := (numerator.log2 : Int) - denominator.log2
  if denominator * twoTo guess.toNat ≤ numerator * twoTo (-guess).toNat then guess else guess - 1

/-- A format of numbers: sign, exponent and fraction, side by side. -/
structure BinaryFormat where
  /-- How many bits the fraction has. -/
  fraction : Nat
  /-- The exponent of the smallest positive number. -/
  least : Int
  /-- The pattern of the exponent that marks infinity. -/
  top : Nat
  deriving Repr, DecidableEq

/-- The pattern of the size of the number nearest to a quotient, infinite if the quotient is too
large. -/
def BinaryFormat.nearest (format : BinaryFormat) (numerator denominator : Nat) : Nat :=
  if numerator = 0 then 0
  else
    let unit := max (binaryExponent numerator denominator - format.fraction) format.least
    let mantissa :=
      nearestQuotient (numerator * twoTo (-unit).toNat) (denominator * twoTo unit.toNat)
    min ((unit - format.least).toNat * twoTo format.fraction + mantissa)
      (format.top * twoTo format.fraction)

end Formula
