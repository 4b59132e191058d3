import Formula.Number.Double

/-!
Single-precision numbers as arrays compute with them: a number too small for full precision counts as
zero, as an operand and as a result. Signs survive that.
-/

namespace Formula

namespace Single

def format : BinaryFormat := ⟨23, -149, 255⟩

def infinity : Float32 := 1.0 / 0.0

def notANumber : Float32 := Float32.ofBits 0x7FC00000

/-- The smallest positive number of full precision. -/
def smallest : Float32 := Float32.ofBits 0x00800000

def isNegative (number : Float32) : Bool := number.toBits.toNat / twoTo 31 == 1

/-- The number with the given sign whose size has this bit pattern. -/
def ofMagnitude (negative : Bool) (bits : Nat) : Float32 :=
  Float32.ofBits (UInt32.ofNat (bits + if negative then twoTo 31 else 0))

/-- The size of one number with the sign of another. -/
def withSign (number sign : Float32) : Float32 :=
  ofMagnitude (isNegative sign) (number.toBits.toNat % twoTo 31)

/-- A number of full precision as it is, a smaller one as zero. -/
def flush (number : Float32) : Float32 :=
  if number.abs < smallest then withSign 0.0 number else number

/-- A function of numbers of full precision. -/
def lift (function : Float32 → Float32) (number : Float32) : Float32 :=
  flush (function (flush number))

def lift₂ (function : Float32 → Float32 → Float32) (left right : Float32) : Float32 :=
  flush (function (flush left) (flush right))

def add : Float32 → Float32 → Float32 := lift₂ (· + ·)

def subtract : Float32 → Float32 → Float32 := lift₂ (· - ·)

def multiply : Float32 → Float32 → Float32 := lift₂ (· * ·)

def divide : Float32 → Float32 → Float32 := lift₂ (· / ·)

def squareRoot : Float32 → Float32 := lift Float32.sqrt

def floor : Float32 → Float32 := lift Float32.floor

def ceiling : Float32 → Float32 := lift Float32.ceil

def less (left right : Float32) : Bool := flush left < flush right

def lessEqual (left right : Float32) : Bool := flush left ≤ flush right

def equal (left right : Float32) : Bool := flush left == flush right

/-- Whether a number counts as zero. -/
def isZero (number : Float32) : Bool := equal number 0.0

/-- The number nearest to a dyadic one. -/
def ofDyadic (number : Dyadic) : Float32 :=
  ofMagnitude number.negative
    (format.nearest (number.mantissa * number.above) number.below)

/-- The number nearest to an integer. -/
def ofInt (integer : Int) : Float32 := ofDyadic ⟨integer < 0, integer.natAbs, 0⟩

/-- A product plus a number, rounded once. -/
def fusedMultiplyAdd (left right addend : Float32) : Float32 :=
  let left := (flush left).toFloat
  let right := (flush right).toFloat
  let addend := (flush addend).toFloat
  match Double.kind left, Double.kind right, Double.kind addend with
  | .finite left, .finite right, .finite addend => flush (ofDyadic ((left.multiply right).add addend))
  | .finite _, .finite _, _ => addend.toFloat32
  | _, _, _ => (left * right + addend).toFloat32

/-- The greater number, the first of two equal ones; what is no number wins. -/
def maximum (left right : Float32) : Float32 :=
  if lessEqual right left || left.isNaN then left else right

def minimum (left right : Float32) : Float32 :=
  if lessEqual left right || left.isNaN then left else right

/-- One with the sign of a number, or a zero. -/
def sign (number : Float32) : Float32 :=
  if number.isNaN then number
  else if isZero number then withSign 0.0 number
  else withSign 1.0 number

/-- The fraction dropped. -/
def truncate (number : Float32) : Float32 :=
  if less number 0.0 then ceiling number else floor number

/-- The remainder of a division that truncates. It has the sign of the dividend, which is left as it
is if it is smaller than the divisor. -/
def truncatedRemainder (dividend divisor : Float32) : Float32 :=
  if isZero divisor then notANumber
  else if dividend.abs < divisor.abs then dividend
  else flush (Double.truncatedRemainder dividend.toFloat divisor.toFloat).toFloat32

/-- The remainder of a division that truncates, moved to the side of the divisor unless it is zero. -/
def remainder (dividend divisor : Float32) : Float32 :=
  let rest := truncatedRemainder dividend divisor
  if !isZero rest && less rest 0.0 != less divisor 0.0 then add rest divisor else rest

/-- A function of doubles, rounded. -/
def viaDouble (function : Float → Float) : Float32 → Float32 :=
  lift fun number => (function number.toFloat).toFloat32

def viaDouble₂ (function : Float → Float → Float) : Float32 → Float32 → Float32 :=
  lift₂ fun left right => (function left.toFloat right.toFloat).toFloat32

def power : Float32 → Float32 → Float32 := viaDouble₂ Float.pow

def arcTangent₂ : Float32 → Float32 → Float32 := viaDouble₂ Float.atan2

/-- The product of the powers `number ^ (2 ^ place)` for the places where the exponent has a one; the
lowest place comes first. -/
def powerBySquares (exponent : Nat) (number : Float32) (product : Option Float32) : Float32 :=
  if done : exponent = 0 then product.getD 1.0
  else
    let product := if exponent % 2 = 1 then
        some ((product.map (multiply · number)).getD number)
      else product
    powerBySquares (exponent / 2) (multiply number number) product
termination_by exponent
decreasing_by omega

/-- A power with an integer exponent; a negative one gives the reciprocal. -/
def integerPower (number : Float32) (exponent : Int) : Float32 :=
  let size := powerBySquares exponent.natAbs number none
  if exponent < 0 then divide 1.0 size else size

/-- The length of a vector of two numbers. -/
def hypotenuse (left right : Float32) : Float32 :=
  let larger := maximum left.abs right.abs
  let smaller := minimum left.abs right.abs
  if isZero larger then larger
  else
    let ratio := divide smaller larger
    multiply larger (squareRoot (fusedMultiplyAdd ratio ratio 1.0))

end Single

end Formula
