import Formula.Number.Double

/-!
Elementary functions of double-precision numbers that stay exact near zero: the exponential less one
and the logarithm of a number plus one.
-/

namespace Formula

namespace Elementary

/-- A product plus a number, rounded once. -/
def fma (left right addend : Float) : Float := Double.fusedMultiplyAdd left right addend

/-- The high and low parts of the logarithm of two. -/
def logTwoHigh : Float := Float.ofBits 0x3FE62E42FEE00000

def logTwoLow : Float := Float.ofBits 0x3DEA39EF35793C76

def inverseLogTwo : Float := Float.ofBits 0x3FF71547652B82FE

/-- Multiplies by a power of two by adding to the exponent bits. -/
def shiftExponent (number : Float) (places : Int) : Float :=
  Float.ofBits (UInt64.ofNat ((number.toBits.toNat + places * twoTo 52) % twoTo 64).toNat)

def powerOfTwo (exponent : Int) : Float :=
  Double.ofQuotient false (twoTo exponent.toNat) (twoTo (-exponent).toNat)

/-- An argument less a multiple of the logarithm of two, with the rounding error of the difference. -/
structure Reduced where
  multiple : Int
  rest : Float
  correction : Float

/-- Brings an argument within half the logarithm of two of zero. -/
def reduce (number : Float) : Reduced :=
  let size := number.abs
  let top := size.toBits.toNat / twoTo 32
  if top ≤ 0x3FD62E42 then ⟨0, number, 0.0⟩
  else
    let half : Float := if number < 0.0 then -0.5 else 0.5
    let multiple : Int :=
      if top < 0x3FF0A2B2 then (if number < 0.0 then -1 else 1)
      else (inverseLogTwo * number + half).toInt64.toInt
    let factor := Double.ofInt multiple
    let high := fma (-factor) logTwoHigh number
    let low := factor * logTwoLow
    let rest := high - low
    ⟨multiple, rest, (high - rest) - low⟩

/-- `exp number - 1`, exact near zero: the argument is reduced, a rational function approximates the
rest, and the power of two is put back. -/
def expm1 (number : Float) : Float :=
  let top := number.abs.toBits.toNat / twoTo 32
  if number.isNaN then number
  else if number > Float.ofBits 0x40862E42FEFA39EF then Double.infinity
  else if top ≥ 0x4043687A && number < 0.0 then -1.0
  else if top < 0x3C900000 then number
  else
    let ⟨multiple, rest, correction⟩ := reduce number
    let half := 0.5 * rest
    let square := rest * half
    let first := fma square (Float.ofBits 0xBFA11111111110F4) 1.0
    let second := fma square (Float.ofBits 0xBF14CE199EAADBB7) (Float.ofBits 0x3F5A01A019FE5585)
    let third := fma square (Float.ofBits 0xBE8AFDB76E09C32D) (Float.ofBits 0x3ED0CFCA86E65239)
    let fourth := square * square
    let polynomial := fma (fourth * fourth) third (fma fourth second first)
    let term := fma (-polynomial) half 3.0
    let error := square * ((polynomial - term) / fma (-rest) term 6.0)
    if multiple = 0 then rest - fma error rest (-square)
    else
      let error := fma (error - correction) rest (-correction) - square
      if multiple = -1 then 0.5 * (rest - error) - 0.5
      else if multiple = 1 then
        if rest < -0.25 then -2.0 * (error - (rest + 0.5)) else 1.0 + 2.0 * (rest - error)
      else if multiple ≤ -2 ∨ multiple > 56 then
        shiftExponent (1.0 - (error - rest)) multiple - 1.0
      else if multiple < 20 then
        shiftExponent ((1.0 - powerOfTwo (-multiple)) - (error - rest)) multiple
      else
        shiftExponent ((rest - (error + powerOfTwo (-multiple))) + 1.0) multiple

/-- `1 + number` as `2 ^ multiple · (1 + rest)` with `rest` near zero, and the error made in adding
one. `small` says that the rest is below `2 ^ -20`. -/
structure Normalized where
  multiple : Int
  rest : Float
  correction : Float
  small : Bool

def normalize (number : Float) : Normalized :=
  let sum := if number < 9007199254740992.0 then 1.0 + number else number
  let exponent : Int := (sum.toBits.toNat / twoTo 52 : Nat) - 1023
  let correction :=
    if number < 9007199254740992.0 then
      (if exponent > 0 then 1.0 - (sum - number) else number - (sum - 1.0)) / sum
    else 0.0
  let fraction := sum.toBits.toNat % twoTo 52
  let top := fraction / twoTo 32
  if top < 0x6A09E then
    ⟨exponent, Double.ofMagnitude false (0x3FF * twoTo 52 + fraction) - 1.0, correction, top == 0⟩
  else
    ⟨exponent + 1, Double.ofMagnitude false (0x3FE * twoTo 52 + fraction) - 1.0, correction,
      (0x100000 - top) / 4 == 0⟩

/-- `log (1 + number)`, exact near zero: one is added with its rounding error kept, and a polynomial
in `rest / (2 + rest)` approximates the logarithm of what is left of powers of two. -/
def log1p (number : Float) : Float :=
  let size := number.abs
  if number.isNaN then number
  else if number < -1.0 then Double.notANumber
  else if number == -1.0 then -Double.infinity
  else if number == Double.infinity then number
  else if size.toBits.toNat / twoTo 32 < 0x3C900000 then number
  else if size.toBits.toNat / twoTo 32 < 0x3E200000 then number - number * number * 0.5
  else
    let top := size.toBits.toNat / twoTo 32
    let near := if number < 0.0 then top ≤ 0x3FD2BEC3 else top < 0x3FDA827A
    let ⟨multiple, rest, correction, small⟩ :=
      if near then ⟨0, number, 0.0, false⟩ else normalize number
    let factor := Double.ofInt multiple
    let tail := fma factor logTwoLow correction
    let half := 0.5 * rest * rest
    if small then
      if rest == 0.0 then
        if multiple = 0 then 0.0 else fma factor logTwoHigh tail
      else
        let term := half * fma (-0.66666666666666666) rest 1.0
        if multiple = 0 then rest - term
        else fma factor logTwoHigh (-((term - tail) - rest))
    else
      let ratio := rest / (2.0 + rest)
      let square := ratio * ratio
      let second := square * square
      let fourth := second * second
      let first := fma square (Float.ofBits 0x3FD2492494229359) (Float.ofBits 0x3FD999999997FA04)
      let middle := fma square (Float.ofBits 0x3FC7466496CB03DE) (Float.ofBits 0x3FCC71C51D8E78AF)
      let last := fma square (Float.ofBits 0x3FC2F112DF3E5244) (Float.ofBits 0x3FC39A09D078C69F)
      let polynomial :=
        fma (second * fourth) last
          (fma fourth middle (fma square (Float.ofBits 0x3FE5555555555593) (second * first)))
      if multiple = 0 then rest - (half - ratio * (half + polynomial))
      else fma factor logTwoHigh (-((half - (ratio * (half + polynomial) + tail)) - rest))

end Elementary

end Formula
