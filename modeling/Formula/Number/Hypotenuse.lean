import Formula.Number.Elementary

/-!
The length of a vector of double-precision numbers: the squares are summed with their rounding errors
kept apart, and the root is improved by what is left over.
-/

namespace Formula

namespace Hypotenuse

/-- A sum with the rounding errors of three kinds of terms, each kind summed on its own. -/
structure Compensated where
  sum : Float := 1.0
  first : Float := 0.0
  second : Float := 0.0
  third : Float := 0.0

namespace Compensated

/-- The rounding error of adding a smaller term. -/
def lost (before after term : Float) : Float := (before - after) + term

def addFirst (total : Compensated) (term : Float) : Compensated :=
  let sum := total.sum + term
  { total with sum := sum, first := total.first + lost total.sum sum term }

def addSecond (total : Compensated) (term : Float) : Compensated :=
  let sum := total.sum + term
  { total with sum := sum, second := total.second + lost total.sum sum term }

def addThird (total : Compensated) (term : Float) : Compensated :=
  let sum := total.sum + term
  { total with sum := sum, third := total.third + lost total.sum sum term }

/-- The sum of the terms. The one that the sum starts from goes. -/
def value (total : Compensated) : Float :=
  total.sum - 1.0 + (total.first + total.second + total.third)

end Compensated

/-- A number as the sum of two that have half as many digits, so that their products are exact. -/
def halves (number : Float) : Float × Float :=
  let wide := number * 134217729.0
  let high := wide - (wide - number)
  (high, number - high)

/-- Adds a square. The square of the low half is too small to change the sum. -/
def addSquare (total : Compensated) (number : Float) : Compensated :=
  let (high, low) := halves number
  let total := (total.addFirst (high * high)).addSecond (2.0 * high * low)
  { total with third := total.third + low * low }

/-- Takes the square of a root away, all three parts of it. -/
def removeSquare (total : Compensated) (root : Float) : Compensated :=
  let (high, low) := halves root
  ((total.addFirst (-high * high)).addSecond (-2.0 * high * low)).addThird (-low * low)

/-- The length of numbers of which the largest is below one and not below one half. -/
def ofScaled (numbers : List Float) : Float :=
  let total := numbers.foldl addSquare {}
  let root := total.value.sqrt
  root + (removeSquare total root).value / (2.0 * root)

/-- The length in multiples of the largest number. -/
def inMultiples (numbers : List Float) (largest : Float) : Float :=
  let total : Compensated := numbers.foldl (fun total number =>
    let ratio := number / largest
    total.addFirst (ratio * ratio)) {}
  (total.sum - 1.0 + total.first).sqrt

/-- The exponent of the power of two above a positive number. -/
def scaleOf (number : Float) : Int :=
  match Double.kind number with
  | .finite value => value.mantissa.log2 + 1 + value.exponent
  | _ => 0

end Hypotenuse

/-- The root of the sum of the squares: infinite as soon as one number is. -/
def Double.hypotenuse (numbers : List Float) : Float :=
  let sizes := numbers.map Float.abs
  let largest := sizes.foldl (fun largest size => if size > largest then size else largest) 0.0
  if largest.isInf then largest
  else if sizes.any Float.isNaN then Double.notANumber
  else if largest == 0.0 ∨ sizes.length ≤ 1 then largest
  else
    let exponent := Hypotenuse.scaleOf largest
    if exponent ≥ -1023 then
      let scale := Elementary.powerOfTwo (-exponent)
      Hypotenuse.ofScaled (sizes.map (· * scale)) / scale
    else largest * Hypotenuse.inMultiples sizes largest

end Formula
