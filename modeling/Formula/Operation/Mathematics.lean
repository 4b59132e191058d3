import Formula.Operation.Numeric
import Formula.Number.Elementary

/-!
Mathematical functions of numbers: what they give, where they are undefined and where they overflow.
-/

namespace Formula

namespace Mathematics

/-- A result that is no number where the argument is one is a fault of the argument; an infinite
result of a finite argument is an overflow, or a fault if the function has a pole there. -/
def checked (atInfinity : OperandFault) (function : Float → Float) (argument : Float) :
    Except Failure Float :=
  let result := function argument
  if result.isNaN && !argument.isNaN then refuse .badValue
  else if result.isInf && Double.isFinite argument then refuse atInfinity
  else .ok result

/-- A function without a pole of its own that can exceed the range of doubles. -/
def growing (function : Float → Float) (argument : Numeric) : Except Failure Numeric := do
  let argument ← argument.toDouble
  let result ← checked .overflow function argument
  .ok (.float result)

/-- A function that is infinite at a pole only. -/
def bounded (function : Float → Float) (argument : Numeric) : Except Failure Numeric := do
  let argument ← argument.toDouble
  let result ← checked .badValue function argument
  .ok (.float result)

/-- A positive integer as a number from one half to one and a power of two. -/
def splitPower (value : Nat) : Float × Int :=
  let exponent := value.log2 + 1
  let nearest := Double.ofQuotient false value (twoTo exponent)
  if nearest == 1.0 then (0.5, exponent + 1) else (nearest, exponent)

def positiveLog (log : Float → Float) (argument : Float) : Except Failure Float :=
  if argument.isNaN then .ok argument
  else if argument > 0.0 then .ok (log argument)
  else refuse .badValue

/-- The logarithm of a positive number. An integer beyond the doubles is split into a fraction and a
power of two. -/
def logarithm (log : Float → Float) (argument : Numeric) : Except Failure Float :=
  match argument with
  | .float value => positiveLog log value
  | .int value =>
    if value ≤ 0 then refuse .badValue
    else
      let nearest := Double.ofInt value
      if Double.isFinite nearest then .ok (log nearest)
      else
        let (fraction, exponent) := splitPower value.toNat
        .ok (log fraction + log 2.0 * Double.ofInt exponent)

/-- Whether a double is an odd integer. -/
def isOdd (number : Float) : Bool :=
  match Double.kind number with
  | .finite value => value.isIntegral && value.truncate % 2 == 1
  | _ => false

def isWhole (number : Float) : Bool :=
  match Double.kind number with
  | .finite value => value.isIntegral
  | _ => false

/-- The power of doubles. A negative base needs a whole exponent, and zero has no negative power. -/
def power (base exponent : Float) : Except Failure Float :=
  if Double.isFinite base && Double.isFinite exponent then
    if base == 0.0 && exponent < 0.0 then refuse .badValue
    else if base < 0.0 && !isWhole exponent then refuse .badValue
    else
      let result := base.pow exponent
      if result.isInf then refuse .overflow else .ok result
  else if base.isNaN then .ok (if exponent == 0.0 then 1.0 else base)
  else if exponent.isNaN then .ok (if base == 1.0 then 1.0 else exponent)
  else if base.isInf then
    let odd := isOdd exponent
    if exponent > 0.0 then .ok (if odd then base else base.abs)
    else if exponent == 0.0 then .ok 1.0
    else .ok (if odd && base < 0.0 then -0.0 else 0.0)
  else if base.abs == 1.0 then .ok 1.0
  else if (exponent > 0.0) == (base.abs > 1.0) then .ok Double.infinity
  else .ok 0.0

/-- The power of numbers, exact for integers with an exponent that is not negative. -/
def exactPower (base exponent : Numeric) : Except Failure Numeric :=
  let onDoubles (base exponent : Float) : Except Failure Numeric :=
    if base == 0.0 && exponent < 0.0 && Double.isFinite exponent then refuse .divisionByZero
    else do
      let result ← power base exponent
      .ok (.float result)
  match base, exponent with
  | .int base, .int exponent =>
    if 0 ≤ exponent then .ok (.int (Int.pow base exponent.toNat))
    else do
      let base ← (Numeric.int base).toDouble
      let exponent ← (Numeric.int exponent).toDouble
      onDoubles base exponent
  | base, exponent => do
    let base ← base.toDouble
    let exponent ← exponent.toDouble
    onDoubles base exponent

/-- The cube root, negative for negative numbers. -/
def cubeRoot (argument : Numeric) : Except Failure Numeric := do
  let third : Float := Float.ofBits 0x3FD5555555555555
  if (argument.compare (.int 0)) == some .lt then
    let size ← argument.negate.toDouble
    .ok (.float (-(size.pow third)))
  else
    let size ← argument.toDouble
    .ok (.float (size.pow third))

/-- Rounds to the nearest integer, halves up; what is not finite stays as it is. -/
def roundHalfUp (argument : Numeric) : Except Failure Numeric := do
  if ← argument.isFinite then
    let half ← argument.add (.float 0.5)
    let floor ← half.toInteger Dyadic.floor
    .ok (.int floor)
  else .ok argument

/-- Drops the fraction; what is not finite stays as it is. -/
def truncate (argument : Numeric) : Except Failure Numeric := do
  if ← argument.isFinite then
    let whole ← argument.toInteger Dyadic.truncate
    .ok (.int whole)
  else .ok argument

/-- The product of the integers from one to `number`. -/
def product (number : Nat) : Nat := (List.range number).foldl (fun result next => result * (next + 1)) 1

def lanczosShift : Float := 4.7421875

/-- The coefficients after the first, from the nearest pole on. -/
def lanczos : List Float :=
  [57.156235665862923517, -59.597960355475491248, 14.136097974741747174,
   -0.49191381609762019978, 0.33994649984811888699e-4, 0.46523628927048575665e-4,
   -0.98374475304879564677e-4, 0.15808870322491248884e-3, -0.21026444172410488319e-3,
   0.2174396181152126432e-3, -0.16431810653676389022e-3, 0.84418223983852743293e-4,
   -0.2619083840158140867e-4, 0.36899182659531622704e-5]

def pi : Float := Float.ofBits 0x400921FB54442D18

def euler : Float := Float.ofBits 0x4005BF0A8B145769

/-- The gamma function above 85 by Stirling's series. -/
def stirling (number : Float) : Except Failure Float := do
  let second := number * number
  let third := second * number
  let fourth := third * number
  let fifth := fourth * number
  let growth ← power (number / euler) number
  .ok ((2.0 * pi / number).sqrt * growth *
    (1.0 + 1.0 / (12.0 * number) + 1.0 / (288.0 * second) - 139.0 / (51840.0 * third) -
      571.0 / (2488320.0 * fourth) + 163879.0 / (209018880.0 * fifth) +
      5246819.0 / (75246796800.0 * fifth * number)))

/-- The gamma function from one half on by Lanczos' sum. -/
def lanczosGamma (number : Float) : Except Failure Float := do
  let argument := number - 1.0
  let terms := lanczos.zipIdx 1
  let sum := terms.foldl (fun sum (coefficient, place) =>
    sum + coefficient / (argument + Double.ofInt place)) 0.99999999999999709182
  let base := argument + lanczosShift + 0.5
  let growth ← power base (argument + 0.5)
  let decay ← checked .overflow Float.exp (-base)
  .ok ((2.0 * pi).sqrt * growth * decay * sum)

/-- The gamma function of a number that is not whole, from one half on. -/
def gammaAbove (number : Float) : Except Failure Float :=
  if number ≥ 171.35 then .ok Double.infinity
  else if number > 85.0 then stirling number
  else lanczosGamma number

/-- The gamma function: a product for whole numbers, infinite at and below zero, and for other numbers
below one half by reflection. -/
def gamma (argument : Numeric) : Except Failure Numeric := do
  let wholeGamma (number : Int) : Numeric :=
    if number ≤ 0 ∨ number > 171 then .float Double.infinity
    else .int (product (number.toNat - 1))
  if ← argument.isWhole then
    let number ← argument.toInteger Dyadic.truncate
    .ok (wholeGamma number)
  else
    let number ← argument.toDouble
    if number.isNaN then .ok (.float number)
    else if number.isInf then .ok (.float (if number > 0.0 then number else Double.notANumber))
    else if number < 0.5 then
      let reflected := 1.0 - number
      let reflected ←
        if isWhole reflected then do
          let whole ← (Numeric.float reflected).toInteger Dyadic.truncate
          (wholeGamma whole).toDouble
        else gammaAbove reflected
      let divisor := (pi * number).sin * reflected
      if divisor == 0.0 then refuse .divisionByZero else .ok (.float (pi / divisor))
    else
      let result ← gammaAbove number
      .ok (.float result)

end Mathematics

end Formula
