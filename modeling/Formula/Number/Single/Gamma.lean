import Formula.Number.Single.Elementary

/-!
The gamma function of single-precision numbers, by Lanczos' sum and by reflection, through its
logarithm; and the derivative of that.
-/

namespace Formula

namespace Single

/-- What the argument is shifted by in Lanczos' sum, plus one half. -/
def lanczosShift : Float32 := 7.5

def lanczosBase : Float32 := 0.99999999999980993227684700473478

/-- The coefficients after the first, from the nearest pole on. -/
def lanczos : List Float32 :=
  [676.520368121885098567009190444019, -1259.13921672240287047156078755283,
   771.3234287776530788486528258894, -176.61502916214059906584551354,
   12.507343278686904814458936853, -0.13857109526572011689554707, 9.984369578019570859563e-6,
   1.50563273514931155834e-7]

/-- The logarithm of a number plus the shift. -/
def logShifted (number : Float32) : Float32 :=
  add 2.01490302054226482 (log1p (multiply number (divide 1.0 lanczosShift)))

/-- The logarithm of the gamma function of a number plus one, for numbers not below minus one half. -/
def logGammaAbove (number : Float32) : Float32 :=
  let sum := (lanczos.zipIdx 1).foldl (fun sum (coefficient, place) =>
    add sum (divide coefficient (add number (ofInt place)))) lanczosBase
  let logBase := logShifted number
  let factor := subtract (add number 0.5) (divide (add lanczosShift number) logBase)
  add (fma factor logBase 0.918938533204672741) (log sum)

/-- The logarithm of the sine of `π · number`, up to sign; near an integer by the distance to it. -/
def logSinePi (number : Float32) : Float32 :=
  let size := number.abs
  let part := subtract size (floor size)
  let near := if part > 0.5 then subtract 1.0 part else part
  log (sin (multiply pi near))

/-- The logarithm of the size of the gamma function. -/
def logGamma (number : Float32) : Float32 :=
  if number.abs.isInf then infinity
  else if less number 0.5 then
    let above := logGammaAbove (-number)
    let sine := logSinePi number
    if sine.isFinite then subtract (subtract 1.14472988584940017 sine) above else -sine
  else logGammaAbove (subtract number 1.0)

/-- The sign of the gamma function; it has none at negative integers. -/
def gammaSign (number : Float32) : Float32 :=
  let whole := floor number
  if (less number 0.0 && equal number whole) || number.isNaN then notANumber
  else if (less number 0.0 && !isZero (remainder whole 2.0)) ||
    (isZero number && isNegative number) then -1.0
  else 1.0

def gamma (number : Float32) : Float32 := multiply (gammaSign number) (exp (logGamma number))

/-- The derivative of the logarithm of the gamma function, at a number plus one. -/
def digammaAbove (number : Float32) : Float32 :=
  let (above, below) := (lanczos.zipIdx 1).foldl (fun (above, below) (coefficient, place) =>
    let distance := add number (ofInt place)
    (subtract above (divide coefficient (multiply distance distance)),
      add below (divide coefficient distance))) (0.0, lanczosBase)
  subtract (add (logShifted number) (divide above below)) (divide 7.0 (add lanczosShift number))

/-- The derivative of the logarithm of the gamma function; none at zero and at negative integers. -/
def digamma (number : Float32) : Float32 :=
  if lessEqual number 0.0 && equal number (floor number) then notANumber
  else if less number 0.5 then
    let reduced := add number (floor (add number 0.5)).abs
    let angle := multiply pi reduced
    subtract (digammaAbove (-number)) (divide (multiply pi (cos angle)) (sin angle))
  else digammaAbove (subtract number 1.0)

end Single

end Formula
