import Formula.Number.Double

/-!
Decimal digits of double-precision numbers: the shortest that read back, and those of a given count.
-/

namespace Formula

/-- The number `digits · 10 ^ exponent`. -/
structure Decimal where
  digits : Nat
  exponent : Int
  deriving Repr, DecidableEq

namespace Decimal

/-- The number of digits of a positive number. -/
def digitCount (number : Nat) : Nat := (Nat.toDigits 10 number).length

/-- The exponent that the number has when one digit stands before the point. -/
def leading (number : Decimal) : Int := number.exponent + digitCount number.digits - 1

/-- Whether `10 ^ exponent ≤ numerator / denominator`. -/
def atLeastPower (numerator denominator : Nat) (exponent : Int) : Bool :=
  denominator * tenTo exponent.toNat ≤ numerator * tenTo (-exponent).toNat

/-- The floor of the base-ten logarithm of a quotient of positive numbers. -/
def decimalExponent (numerator denominator : Nat) : Int :=
  let guess := (binaryExponent numerator denominator * 30103).fdiv 100000
  if atLeastPower numerator denominator (guess + 1) then guess + 1
  else if atLeastPower numerator denominator guess then guess
  else guess - 1

/-- A quotient rounded to `count` digits, a half going to the even neighbour. -/
def ofQuotient (numerator denominator count : Nat) : Decimal :=
  let unit := decimalExponent numerator denominator - count + 1
  ⟨nearestQuotient (numerator * tenTo (-unit).toNat) (denominator * tenTo unit.toNat), unit⟩

/-- The numbers that read back as one double, in quarters of its unit in the last place. -/
structure Interval where
  lowest : Nat
  value : Nat
  highest : Nat
  denominator : Nat
  closed : Bool

/-- Halfway to the neighbours on either side; below a power of two the gap is half as wide. -/
def interval (number : Dyadic) : Interval :=
  let quarter := number.exponent - 2
  let scale := twoTo quarter.toNat
  let narrow := number.mantissa = twoTo 52 ∧ number.exponent > -1074
  { lowest := (4 * number.mantissa - if narrow then 1 else 2) * scale
    value := 4 * number.mantissa * scale
    highest := (4 * number.mantissa + 2) * scale
    denominator := twoTo (-quarter).toNat
    closed := number.mantissa % 2 = 0 }

/-- Whether `digits · 10 ^ unit` reads back as the number. -/
def Interval.holds (range : Interval) (digits : Nat) (unit : Int) : Bool :=
  let point := digits * tenTo unit.toNat * range.denominator
  let up := tenTo (-unit).toNat
  if range.closed then range.lowest * up ≤ point && point ≤ range.highest * up
  else range.lowest * up < point && point < range.highest * up

/-- How far `digits · 10 ^ unit` lies from the number, in a unit of its own. -/
def Interval.distance (range : Interval) (digits : Nat) (unit : Int) : Nat :=
  let point : Int := (digits * tenTo unit.toNat * range.denominator : Nat)
  (point - (range.value * tenTo (-unit).toNat : Nat)).natAbs

/-- The nearer of the number's two neighbours on the grid of multiples of `10 ^ unit`, of those that
read back; halfway between them the even one. -/
def Interval.onGrid? (range : Interval) (unit : Int) : Option Decimal :=
  let below := range.value * tenTo (-unit).toNat / (range.denominator * tenTo unit.toNat)
  match range.holds below unit, range.holds (below + 1) unit with
  | false, false => none
  | true, false => some ⟨below, unit⟩
  | false, true => some ⟨below + 1, unit⟩
  | true, true =>
    match compare (range.distance below unit) (range.distance (below + 1) unit) with
    | .lt => some ⟨below, unit⟩
    | .gt => some ⟨below + 1, unit⟩
    | .eq => some ⟨below + below % 2, unit⟩

/-- The first grid, each ten times finer than the one before, that holds a number that reads back. -/
def Interval.search (range : Interval) (unit : Int) : Nat → Decimal
  | 0 => ⟨range.value, 0⟩
  | tries + 1 => (range.onGrid? unit).getD (range.search (unit - 1) tries)

/-- The digits without the zeros at their end. -/
def trimmed (digits : Nat) (exponent : Int) : Decimal :=
  if rest : digits ≠ 0 ∧ digits % 10 = 0 then trimmed (digits / 10) (exponent + 1)
  else ⟨digits, exponent⟩
termination_by digits
decreasing_by omega

/-- The fewest digits that read back as the number; seventeen always do. -/
def shortest (number : Dyadic) : Decimal :=
  if number.mantissa = 0 then ⟨0, 0⟩
  else
    let range := interval number
    let found := range.search (decimalExponent range.value range.denominator) 17
    trimmed found.digits found.exponent

end Decimal

end Formula
