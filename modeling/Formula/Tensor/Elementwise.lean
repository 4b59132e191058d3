import Formula.Tensor
import Formula.Number.Single.Gamma

/-!
The element-wise operations: the kinds they accept and what they give.
-/

namespace Formula

/-- An operation on single elements. -/
structure UnaryOperation where
  /-- The kind of the result; none if the operation refuses its operand. -/
  kind? : ElementKind → Option ElementKind
  apply : Element → Element

/-- An operation on pairs of elements. -/
structure BinaryOperation where
  kind? : ElementKind → ElementKind → Option ElementKind
  apply : Element → Element → Element

namespace Elementwise

/-- A function of numbers; integers and truth values are taken for numbers. -/
def numeric (function : Float32 → Float32) : UnaryOperation :=
  { kind? := fun _ => some .float
    apply := fun element => .float (function element.toFloat) }

/-- A rounding, which leaves integers and truth values as they are. -/
def rounding (round : Float32 → Float32) : UnaryOperation :=
  { kind? := some
    apply := fun element =>
      match element with
      | .float value => .float (round value)
      | element => element }

def negate : UnaryOperation :=
  { kind? := fun kind => if kind = .bool then none else some kind
    apply := fun element =>
      match element with
      | .float value => .float (-value)
      | element => .int (-element.toInt) }

def magnitude : UnaryOperation :=
  { kind? := some
    apply := fun element =>
      match element with
      | .bool value => .bool value
      | .int value => .int (if value < 0 then -value else value)
      | .float value => .float value.abs }

def sign : UnaryOperation :=
  { kind? := fun kind => if kind = .bool then none else some kind
    apply := fun element =>
      match element with
      | .float value => .float (Single.sign value)
      | element => .int (if element.toInt > 0 then 1 else if element.toInt < 0 then -1 else 0) }

def identity : UnaryOperation := { kind? := some, apply := id }

def logicalNot : UnaryOperation :=
  { kind? := fun _ => some .bool, apply := fun element => .bool !element.truth }

/-- Halves are rounded up. -/
def round : UnaryOperation := numeric fun number => Single.floor (Single.add number 0.5)

def gamma : UnaryOperation := numeric Single.gamma

def factorial : UnaryOperation := numeric fun number => Single.gamma (Single.add number 1.0)

/-- The operation of an operator with one operand. -/
def unary? (symbol : Text) : Option UnaryOperation :=
  let table : List (String × UnaryOperation) :=
    [("-", negate), ("+", identity), ("abs", magnitude), ("sin", numeric Single.sin),
     ("cos", numeric Single.cos), ("tan", numeric Single.tan), ("asin", numeric Single.arcSine),
     ("acos", numeric Single.arcCosine), ("atan", numeric Single.arcTangent),
     ("sinh", numeric Single.sinh), ("cosh", numeric Single.cosh), ("tanh", numeric Single.tanh),
     ("asinh", numeric Single.arSinh), ("acosh", numeric Single.arCosh),
     ("atanh", numeric Single.arTanh), ("sqrt", numeric Single.squareRoot),
     ("cbrt", numeric Single.cubeRoot), ("log", numeric Single.log), ("ln", numeric Single.log),
     ("log2", numeric Single.log2), ("lg", numeric Single.log10), ("log10", numeric Single.log10),
     ("expm1", numeric Single.expm1), ("log1p", numeric Single.log1p), ("exp", numeric Single.exp),
     ("ceil", rounding Single.ceiling), ("floor", rounding Single.floor), ("round", round),
     ("trunc", rounding Single.truncate), ("sign", sign), ("not", logicalNot), ("!", factorial)]
  (table.find? fun entry => Text.ofString entry.1 == symbol).map (·.2)

/-- A pair of elements in the wider of their kinds. -/
def combine (onBools : Bool → Bool → Element) (onInts : Int32 → Int32 → Element)
    (onFloats : Float32 → Float32 → Element) (left right : Element) : Element :=
  match left, right with
  | .bool left, .bool right => onBools left right
  | .float left, right => onFloats left right.toFloat
  | left, .float right => onFloats left.toFloat right
  | left, right => onInts left.toInt right.toInt

def joined (left right : ElementKind) : Option ElementKind := some (left.join right)

/-- Integers wrap around; the sum of truth values is their disjunction. -/
def add : BinaryOperation :=
  { kind? := joined
    apply := combine (fun x y => .bool (x || y)) (fun x y => .int (x + y))
      (fun x y => .float (Single.add x y)) }

/-- Truth values have no difference. -/
def subtract : BinaryOperation :=
  { kind? := fun left right => if left.join right = .bool then none else joined left right
    apply := combine (fun x y => .bool (x != y)) (fun x y => .int (x - y))
      (fun x y => .float (Single.subtract x y)) }

/-- A truth value leaves of a number the number itself or zero, even of one that is infinite. -/
def multiply : BinaryOperation :=
  { kind? := joined
    apply := fun left right =>
      match left, right with
      | .bool test, .float value | .float value, .bool test => .float (if test then value else 0.0)
      | left, right =>
        combine (fun x y => .bool (x && y)) (fun x y => .int (x * y))
          (fun x y => .float (Single.multiply x y)) left right }

/-- A function of two numbers. -/
def numericPair (function : Float32 → Float32 → Float32) : BinaryOperation :=
  { kind? := fun _ _ => some .float
    apply := fun left right => .float (function left.toFloat right.toFloat) }

def divide : BinaryOperation := numericPair Single.divide

/-- The remainder of an integer with the sign of the divisor; by zero nothing is left. -/
def integerRemainder (dividend divisor : Int32) : Int32 :=
  if divisor = 0 then 0 else Int32.ofInt (dividend.toInt.fmod divisor.toInt)

def remainder : BinaryOperation :=
  { kind? := fun left right => some (if left.join right = .float then .float else .int)
    apply := fun left right =>
      match left, right with
      | .float left, right => .float (Single.remainder left right.toFloat)
      | left, .float right => .float (Single.remainder left.toFloat right)
      | left, right => .int (integerRemainder left.toInt right.toInt) }

def power : BinaryOperation := numericPair Single.power

/-- A power with one integer for all exponents. -/
def integerPower (exponent : Int32) : UnaryOperation :=
  numeric fun number => Single.integerPower number exponent.toInt

def hypotenuse : BinaryOperation := numericPair Single.hypotenuse

def angle : BinaryOperation := numericPair Single.arcTangent₂

/-- A comparison, made in the wider of the two kinds. -/
def comparison (onInts : Int32 → Int32 → Bool) (onFloats : Float32 → Float32 → Bool) :
    BinaryOperation :=
  { kind? := fun _ _ => some .bool
    apply := combine
      (fun x y => .bool (onInts (Element.bool x).toInt (Element.bool y).toInt))
      (fun x y => .bool (onInts x y)) (fun x y => .bool (onFloats x y)) }

def logical (connect : Bool → Bool → Bool) : BinaryOperation :=
  { kind? := fun _ _ => some .bool
    apply := fun left right => .bool (connect left.truth right.truth) }

def equal : BinaryOperation := comparison (· == ·) Single.equal

def unequal : BinaryOperation := comparison (· != ·) fun x y => !Single.equal x y

def less : BinaryOperation := comparison (· < ·) Single.less

def lessEqual : BinaryOperation := comparison (· ≤ ·) Single.lessEqual

def greater : BinaryOperation := comparison (· > ·) fun x y => Single.less y x

def greaterEqual : BinaryOperation := comparison (· ≥ ·) fun x y => Single.lessEqual y x

def conjunction : BinaryOperation := logical (· && ·)

def disjunction : BinaryOperation := logical (· || ·)

/-- The operation of an operator with two operands. -/
def binary? (symbol : Text) : Option BinaryOperation :=
  let table : List (String × BinaryOperation) :=
    [("+", add), ("-", subtract), ("*", multiply), ("/", divide), ("%", remainder), ("^", power),
     ("==", equal), ("!=", unequal), ("<", less), ("<=", lessEqual), (">", greater),
     (">=", greaterEqual), ("and", conjunction), ("or", disjunction)]
  (table.find? fun entry => Text.ofString entry.1 == symbol).map (·.2)

/-- The better of two elements, the first of two equal ones. -/
def extremum (onInts : Int32 → Int32 → Bool) (onFloats : Float32 → Float32 → Float32) :
    BinaryOperation :=
  { kind? := joined
    apply := combine
      (fun x y => .bool (if onInts (Element.bool x).toInt (Element.bool y).toInt then x else y))
      (fun x y => .int (if onInts x y then x else y))
      (fun x y => .float (onFloats x y)) }

def maximum : BinaryOperation := extremum (· ≥ ·) Single.maximum

def minimum : BinaryOperation := extremum (· ≤ ·) Single.minimum

end Elementwise

namespace Tensor

def applyUnary (operation : UnaryOperation) (tensor : Tensor) : Except Failure Tensor :=
  match operation.kind? tensor.kind with
  | some kind => .ok (tensor.map kind operation.apply)
  | none => refuseArrays

def applyBinary (operation : BinaryOperation) (left right : Tensor) : Except Failure Tensor :=
  match operation.kind? left.kind right.kind with
  | some kind => zipWith kind (fun x y => (operation.apply x y).widen kind) left right
  | none => refuseArrays

/-- The elements of the second tensor where the first holds, of the third elsewhere. -/
def choose (condition yes no : Tensor) : Except Failure Tensor := do
  let kind := yes.kind.join no.kind
  let shape ← commonShape condition.shape yes.shape
  let shape ← commonShape shape no.shape
  let arms := List.zipWith Prod.mk (yes.broadcast shape).elements (no.broadcast shape).elements
  let elements := List.zipWith
    (fun (test : Element) (arm : Element × Element) =>
      (if test.truth then arm.1 else arm.2).widen kind)
    (condition.broadcast shape).elements arms
  return ⟨kind, shape, elements⟩

/-- The elements that are added up into one, for each element that remains. Of the dimensions, given
with their sizes, those that are marked go. -/
def lines : List (Nat × Bool) → List Element → List (List Element)
  | [], elements => [elements]
  | (size, goes) :: rest, elements =>
    let rows := (parts (volume (rest.map (·.1))) size elements).map (lines rest)
    if goes then
      let remaining := (rest.filter fun dimension => !dimension.2).map (·.1)
      rows.foldr (List.zipWith (· ++ ·)) (List.replicate (volume remaining) [])
    else rows.flatten

/-- The sum of some elements. A single one is its own sum. -/
def sumLine (kind : ElementKind) : List Element → Element
  | [only] => only.widen kind
  | line => line.foldl Elementwise.add.apply ((Element.int 0).widen kind)

/-- The sums over some dimensions; truth values are counted. -/
def sumOver (tensor : Tensor) (dimensions : List Nat) : Tensor :=
  let kind := if tensor.kind = .float then ElementKind.float else .int
  let marked := tensor.shape.zipIdx.map fun (size, place) => (size, dimensions.contains place)
  { kind := kind
    shape := (marked.filter fun dimension => !dimension.2).map (·.1)
    elements := (lines marked tensor.elements).map (sumLine kind) }

/-- The sum of all elements. -/
def sum (tensor : Tensor) : Tensor := tensor.sumOver (List.range tensor.shape.length)

/-- The elements of a tensor added up to a shape from which it can be spread. -/
def gather (shape : List Nat) (tensor : Tensor) : Tensor :=
  let padded := List.replicate (tensor.shape.length - shape.length) 1 ++ shape
  let spread := (padded.zip tensor.shape).zipIdx.filterMap fun ((size, wide), place) =>
    if size = wide then none else some place
  { tensor.sumOver spread with shape := shape }

/-- The place of a dimension, which is counted from the end if it is negative. -/
def dimension (count : Nat) (place : Int) : Except Failure Nat :=
  if 0 ≤ place ∧ place < count then .ok place.toNat
  else if place < 0 ∧ 0 ≤ place + count then .ok (place + count).toNat
  else refuseArrays

/-- The dimensions that a tensor lists: one integer, or a row of different ones. -/
def dimensions (count : Nat) (places : Tensor) : Except Failure (List Nat) :=
  if places.shape.length ≤ 1 ∧ (places.kind = .int ∨ places.elements.isEmpty) then do
    let dimensions ← places.elements.mapM fun place => dimension count place.toInt.toInt
    if dimensions.eraseDups.length = dimensions.length then return dimensions else refuseArrays
  else refuseArrays

/-- The best of all elements, of which there must be one. -/
def reduce (operation : BinaryOperation) (tensor : Tensor) : Except Failure Tensor :=
  match tensor.elements with
  | [] => refuseArrays
  | first :: rest => .ok (scalar (rest.foldl operation.apply first))

end Tensor

end Formula
