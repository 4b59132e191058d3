import Formula.Graph
import Formula.Failure
import Formula.Number.Single

/-!
Tensors: rectangular arrays of truth values, of 32-bit integers or of single-precision numbers.
-/

namespace Formula

/-- The kinds of elements, each wider than the one before. -/
inductive ElementKind where
  | bool
  | int
  | float
  deriving DecidableEq, Repr, Inhabited

namespace ElementKind

/-- The narrowest kind that holds elements of both. -/
def join : ElementKind → ElementKind → ElementKind
  | .float, _ | _, .float => .float
  | .int, _ | _, .int => .int
  | .bool, .bool => .bool

/-- The kind of the elements as results show it. -/
def name : ElementKind → Text
  | .bool => Text.ofString "bool"
  | .int => Text.ofString "int32"
  | .float => Text.ofString "float32"

end ElementKind

inductive Element where
  | bool (value : Bool)
  | int (value : Int32)
  | float (value : Float32)
  deriving DecidableEq, Inhabited

namespace Element

def kind : Element → ElementKind
  | .bool _ => .bool
  | .int _ => .int
  | .float _ => .float

/-- A truth value as zero or one. -/
def toInt : Element → Int32
  | .bool value => if value then 1 else 0
  | .int value => value
  | .float _ => 0

def toFloat : Element → Float32
  | .float value => value
  | element => Float32.ofInt element.toInt.toInt

/-- The element among elements of a wider kind. -/
def widen (kind : ElementKind) (element : Element) : Element :=
  match kind with
  | .bool => element
  | .int => .int element.toInt
  | .float => .float element.toFloat

/-- Whether an element counts as met. -/
def truth : Element → Bool
  | .bool value => value
  | .int value => value != 0
  | .float value => !Single.isZero value

/-- The element of a double. -/
def ofDouble (value : Float) : Element := .float value.toFloat32

def toDouble (element : Element) : Float := element.toFloat.toFloat

end Element

/-- The elements stand in rows: those that differ in the last place of their index are neighbours. -/
structure Tensor where
  kind : ElementKind
  shape : List Nat
  elements : List Element
  deriving DecidableEq, Inhabited

/-- The number of elements of a shape. -/
def volume (shape : List Nat) : Nat := shape.foldr (· * ·) 1

/-- A list cut into parts of one size. -/
def parts {α : Type} (size : Nat) : Nat → List α → List (List α)
  | 0, _ => []
  | count + 1, items => items.take size :: parts size count (items.drop size)

/-- The refusal of the array operations. -/
def refuseArrays {α : Type} : Except Failure α := .error .arrays

namespace Tensor

def scalar (element : Element) : Tensor := ⟨element.kind, [], [element]⟩

/-- The only element of a tensor without dimensions. -/
def element (tensor : Tensor) : Element := tensor.elements.headD default

def widen (kind : ElementKind) (tensor : Tensor) : Tensor :=
  { tensor with kind := kind, elements := tensor.elements.map (·.widen kind) }

/-- The shape in which two tensors can be combined, both given from the last dimension on: sizes agree,
or one of them is one. -/
def commonReversed : List Nat → List Nat → Except Failure (List Nat)
  | [], sizes | sizes, [] => .ok sizes
  | left :: lefts, right :: rights => do
    let rest ← commonReversed lefts rights
    if left = right ∨ right = 1 then .ok (left :: rest)
    else if left = 1 then .ok (right :: rest)
    else refuseArrays

def commonShape (left right : List Nat) : Except Failure (List Nat) :=
  (commonReversed left.reverse right.reverse).map List.reverse

/-- The elements of a shape, repeated to fill another one of as many dimensions. -/
def spread : List Nat → List Nat → List Element → List Element
  | size :: sizes, wanted :: others, elements =>
    let rows := (parts (volume sizes) size elements).map (spread sizes others)
    if size = wanted then rows.flatten else (List.replicate wanted rows.flatten).flatten
  | _, _, elements => elements

/-- The tensor repeated to fill a shape that it can be combined to. -/
def broadcast (shape : List Nat) (tensor : Tensor) : Tensor :=
  let padded := List.replicate (shape.length - tensor.shape.length) 1 ++ tensor.shape
  { tensor with shape := shape, elements := spread padded shape tensor.elements }

/-- Two tensors combined element by element. -/
def zipWith (kind : ElementKind) (combine : Element → Element → Element) (left right : Tensor) :
    Except Failure Tensor := do
  let shape ← commonShape left.shape right.shape
  let elements :=
    List.zipWith combine (left.broadcast shape).elements (right.broadcast shape).elements
  return ⟨kind, shape, elements⟩

def map (kind : ElementKind) (change : Element → Element) (tensor : Tensor) : Tensor :=
  { tensor with kind := kind, elements := tensor.elements.map change }

/-- The kind that holds the elements of all tensors. -/
def joinKinds (tensors : List Tensor) : ElementKind :=
  match tensors with
  | [] => .float
  | first :: rest => rest.foldl (fun kind tensor => kind.join tensor.kind) first.kind

/-- Tensors of one shape as the rows of a new one. Without any it is an empty row of numbers. -/
def stack (tensors : List Tensor) : Except Failure Tensor :=
  match tensors with
  | [] => .ok ⟨.float, [0], []⟩
  | first :: _ =>
    if tensors.all (·.shape = first.shape) then
      let kind := joinKinds tensors
      .ok ⟨kind, tensors.length :: first.shape,
        (tensors.map fun tensor => (tensor.widen kind).elements).flatten⟩
    else refuseArrays

/-- The rows of a tensor; one without dimensions has none. -/
def rows (tensor : Tensor) : Except Failure (List Tensor) :=
  match tensor.shape with
  | [] => refuseArrays
  | count :: shape =>
    .ok ((parts (volume shape) count tensor.elements).map fun row => ⟨tensor.kind, shape, row⟩)

/-- Integers of 32 bits. -/
def element? : Scalar → Except Failure Element
  | .bool value => .ok (.bool value)
  | .int value =>
    if -2147483648 ≤ value ∧ value < 2147483648 then .ok (.int (Int32.ofInt value)) else refuseArrays
  | .float value => .ok (.ofDouble value)
  | .notANumber _ => .ok (.ofDouble Double.notANumber)

mutual

/-- The widest kind of the scalars in a constant. -/
def constantKind : Constant → Except Failure (Option ElementKind)
  | .scalar (.bool _) => .ok (some .bool)
  | .scalar (.int _) => .ok (some .int)
  | .scalar (.float _) | .scalar (.notANumber _) => .ok (some .float)
  | .list items => constantKinds items
  | .missing | .other => refuseArrays

def constantKinds : List Constant → Except Failure (Option ElementKind)
  | [] => .ok none
  | first :: rest => do
    let kind ← constantKind first
    let others ← constantKinds rest
    match kind, others with
    | some kind, some other => return some (kind.join other)
    | kind, other => return kind.or other

end

/-- A scalar among others of a kind. -/
def elementOf (kind : ElementKind) (value : Scalar) : Except Failure Element :=
  match kind, value with
  | .float, .int value =>
    let nearest := Double.ofInt value
    if Double.isFinite nearest then .ok (.ofDouble nearest) else refuseArrays
  | kind, value => (element? value).map (·.widen kind)

mutual

/-- The tensor of a constant whose scalars are of a kind. -/
def ofConstantKind (kind : ElementKind) : Constant → Except Failure Tensor
  | .scalar value => (elementOf kind value).map scalar
  | .list items => do
    let rows ← ofConstantKinds kind items
    match rows with
    | [] => return ⟨kind, [0], []⟩
    | rows => stack rows
  | .missing | .other => refuseArrays

def ofConstantKinds (kind : ElementKind) : List Constant → Except Failure (List Tensor)
  | [] => .ok []
  | first :: rest => do
    let tensor ← ofConstantKind kind first
    let others ← ofConstantKinds kind rest
    return tensor :: others

end

/-- The tensor of a constant. An integer must fit unless it stands beside numbers with a fraction. -/
def ofConstant (constant : Constant) : Except Failure Tensor := do
  let kind ← constantKind constant
  ofConstantKind (kind.getD .float) constant

end Tensor

end Formula
