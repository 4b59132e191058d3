import Formula.Number.Single

/-!
Elementary functions of single-precision numbers, by polynomials and by one another. They are not
rounded correctly: what they give for a number is part of what they are.
-/

namespace Formula

namespace Single

def fma : Float32 → Float32 → Float32 → Float32 := fusedMultiplyAdd

/-- The polynomial with the given coefficients, that of the highest power first. -/
def polynomial (coefficients : List Float32) (number : Float32) : Float32 :=
  match coefficients with
  | [] => 0.0
  | first :: rest => rest.foldl (fun value coefficient => fma value number coefficient) first

/-- A number moved between two others. -/
def clamp (low high number : Float32) : Float32 :=
  if number < low then low else if number > high then high else number

/-- The logarithm of two as the sum of a part of few digits and a small rest. -/
def logTwoHigh : Float32 := 0.693359375

def logTwoLow : Float32 := -2.12194440e-4

/-- The power of two with an exponent from -127 to 127; the least of them counts as zero. -/
def powerOfTwo (exponent : Float32) : Float32 :=
  Float32.ofBits (UInt32.ofNat ((exponent.toInt32.toInt + 127).toNat * twoTo 23))

/-- The exponential: a power of two times a polynomial in what is left of the exponent. -/
def exp (number : Float32) : Float32 :=
  if number.isNaN then number
  else
    let number := clamp (-87.8) 88.8 (flush number)
    let multiple := clamp (-127.0) 127.0 (floor (fma number 1.44269504088896341 0.5))
    let rest := fma (-logTwoLow) multiple (fma (-logTwoHigh) multiple number)
    let value := polynomial
      [1.9875691500e-4, 1.3981999507e-3, 8.3334519073e-3, 4.1665795894e-2, 1.6666665459e-1,
       5.0000001201e-1] rest
    let value := add 1.0 (fma value (multiply rest rest) rest)
    multiply value (powerOfTwo multiple)

/-- A positive number as a fraction from the root of one half on, less one, and a power of two. -/
def splitFraction (number : Float32) : Float32 × Float32 :=
  let bits := number.toBits.toNat
  let exponent := ofInt (bits / twoTo 23 - 126 : Int)
  let fraction := ofMagnitude false (bits % twoTo 23 + 126 * twoTo 23)
  if fraction < 0.707106781186547524 then
    (add (subtract fraction 1.0) fraction, subtract exponent 1.0)
  else (subtract fraction 1.0, exponent)

/-- The logarithm: of the power of two, and of the fraction by a polynomial. -/
def log (number : Float32) : Float32 :=
  let number := flush number
  if number.isNaN then number
  else if number < 0.0 then notANumber
  else if number == 0.0 then -infinity
  else if number.isInf then number
  else
    let (rest, exponent) := splitFraction number
    let square := multiply rest rest
    let cube := multiply square rest
    let first := polynomial [7.0376836292e-2, -1.1514610310e-1, 1.1676998740e-1] rest
    let second := polynomial [-1.2420140846e-1, 1.4249322787e-1, -1.6668057665e-1] rest
    let third := polynomial [2.0000714765e-1, -2.4999993993e-1, 3.3333331174e-1] rest
    let value := fma (fma first cube second) cube third
    let low := fma value cube (multiply logTwoLow exponent)
    fma logTwoHigh exponent (add (fma (-0.5) square rest) low)

/-- The logarithm of a number plus one, by a quotient of polynomials near zero. -/
def log1p (number : Float32) : Float32 :=
  let number := flush number
  if number.abs < 0.41421356237309504880 then
    let square := multiply number number
    let above := polynomial
      [4.5270000862445199635215e-5, 4.9854102823193375972212e-1, 6.5787325942061044846969,
       2.9911919328553073277375e1, 6.0949667980987787057556e1, 5.7112963590585538103336e1,
       2.0039553499201281259648e1] number
    let below := polynomial
      [1.0, 1.5062909083469192043167e1, 8.3047565967967209469434e1, 2.2176239823732856465394e2,
       3.0909872225312059774938e2, 2.1642788614495947685003e2, 6.0118660497603840919306e1] number
    let correction := multiply (multiply number square) (divide above below)
    add number (fma (-0.5) square correction)
  else log (add number 1.0)

/-- The hyperbolic tangent, a quotient of polynomials between bounds beyond which it is one. -/
def tanh (number : Float32) : Float32 :=
  if number.abs < 0.0004 then number
  else
    let number := clamp (-7.99881172180175781) 7.99881172180175781 number
    let square := multiply number number
    let above := polynomial
      [-2.76076847742355e-16, 2.00018790482477e-13, -8.60467152213735e-11, 5.12229709037114e-08,
       1.48572235717979e-05, 6.37261928875436e-04, 4.89352455891786e-03] square
    let below := polynomial
      [1.19825839466702e-06, 1.18534705686654e-04, 2.26843463243900e-03, 4.89352518554385e-03] square
    divide (multiply number above) below

/-- The exponential less one. -/
def expm1 (number : Float32) : Float32 :=
  let half := multiply number 0.5
  if half == 0.0 then number
  else if number.abs > 0.5 then subtract (exp number) 1.0
  else multiply (tanh half) (add (exp number) 1.0)

def logTwo : Float32 := 0.693147180559945309

def logTen : Float32 := 2.30258509299404568

/-- The logarithm in base two. -/
def log2 (number : Float32) : Float32 := multiply (log number) (divide 1.0 logTwo)

/-- The logarithm in base ten. -/
def log10 (number : Float32) : Float32 := multiply (log number) (divide 1.0 logTen)

/-- Half the exponential. -/
def halfExp (number : Float32) : Float32 := exp (add number (-logTwo))

/-- The hyperbolic sine; near zero by the exponential less one. -/
def sinh (number : Float32) : Float32 :=
  if flush number.abs < 1.0 then
    let growth := expm1 number
    multiply 0.5 (add growth (divide growth (add growth 1.0)))
  else subtract (halfExp number) (halfExp (-number))

def cosh (number : Float32) : Float32 := add (halfExp number) (halfExp (-number))

/-- A function that leaves a number too small for full precision as it is. -/
def keepingSmall (function : Float32 → Float32) (number : Float32) : Float32 :=
  if number.abs < smallest then number else function number

def sin : Float32 → Float32 := keepingSmall (viaDouble Float.sin)

def cos : Float32 → Float32 := viaDouble Float.cos

def tan (number : Float32) : Float32 := divide (sin number) (cos number)

/-- The root of one less the square. -/
def coSize (number : Float32) : Float32 :=
  squareRoot (multiply (subtract 1.0 number) (add 1.0 number))

def arcSine (number : Float32) : Float32 :=
  multiply 2.0 (arcTangent₂ number (add 1.0 (coSize number)))

def pi : Float32 := 3.14159265358979323846

def arcCosine (number : Float32) : Float32 :=
  if number == -1.0 then pi
  else multiply 2.0 (arcTangent₂ (coSize number) (add 1.0 number))

def arcTangent (number : Float32) : Float32 := arcTangent₂ number 1.0

/-- Numbers from here on are not squared, lest the square be infinite. -/
def rootOfLargest : Float32 := Float32.ofBits 0x5F800000

/-- The inverse of the hyperbolic sine. -/
def arSinh (number : Float32) : Float32 :=
  let size := flush number.abs
  let value :=
    if rootOfLargest ≤ size then add (log size) logTwo
    else if size ≤ 1.0 then
      let square := multiply size size
      log1p (add size (divide square (add 1.0 (squareRoot (fma size size 1.0)))))
    else log (add size (squareRoot (fma size size 1.0)))
  if number.isNaN then number else withSign value number

/-- The inverse of the hyperbolic cosine. -/
def arCosh (number : Float32) : Float32 :=
  if number < -1.0 then notANumber
  else if rootOfLargest ≤ number then add (log number) logTwo
  else log (add number (squareRoot (multiply (add number 1.0) (subtract number 1.0))))

/-- The inverse of the hyperbolic tangent. -/
def arTanh (number : Float32) : Float32 :=
  if number.abs > 1.0 then notANumber
  else multiply 0.5 (subtract (log1p number) (log1p (-number)))

/-- The cube root, negative for negative numbers. -/
def cubeRoot (number : Float32) : Float32 :=
  if number.isNaN then number else withSign (power number.abs (1.0 / 3.0)) number

/-- One over the root. -/
def inverseRoot (number : Float32) : Float32 := divide 1.0 (squareRoot number)

end Single

end Formula
