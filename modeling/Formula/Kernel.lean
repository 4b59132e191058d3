import Formula.Tensor.Elementwise

/-!
Kernels: straight-line programs over tensors. Their steps are simpler than the nodes of a graph, all
kinds and shapes are known, and nothing is converted or repeated but by a step of its own.
-/

namespace Formula

/-- Functions of one element. -/
inductive UnaryFunction where
  | negate
  | magnitude
  | sign
  | floor
  | ceiling
  | exp
  | expm1
  | log
  | log1p
  | squareRoot
  | inverseRoot
  | cubeRoot
  | sin
  | cos
  | tan
  | arcSine
  | arcCosine
  | arcTangent
  | sinh
  | cosh
  | tanh
  | arSinh
  | arCosh
  | arTanh
  | logGamma
  | digamma
  | gammaSign
  | logicalNot
  deriving DecidableEq, Repr

namespace UnaryFunction

def operation : UnaryFunction → UnaryOperation
  | negate => Elementwise.negate
  | magnitude => Elementwise.magnitude
  | sign => Elementwise.sign
  | floor => Elementwise.rounding Single.floor
  | ceiling => Elementwise.rounding Single.ceiling
  | exp => Elementwise.numeric Single.exp
  | expm1 => Elementwise.numeric Single.expm1
  | log => Elementwise.numeric Single.log
  | log1p => Elementwise.numeric Single.log1p
  | squareRoot => Elementwise.numeric Single.squareRoot
  | inverseRoot => Elementwise.numeric Single.inverseRoot
  | cubeRoot => Elementwise.numeric Single.cubeRoot
  | sin => Elementwise.numeric Single.sin
  | cos => Elementwise.numeric Single.cos
  | tan => Elementwise.numeric Single.tan
  | arcSine => Elementwise.numeric Single.arcSine
  | arcCosine => Elementwise.numeric Single.arcCosine
  | arcTangent => Elementwise.numeric Single.arcTangent
  | sinh => Elementwise.numeric Single.sinh
  | cosh => Elementwise.numeric Single.cosh
  | tanh => Elementwise.numeric Single.tanh
  | arSinh => Elementwise.numeric Single.arSinh
  | arCosh => Elementwise.numeric Single.arCosh
  | arTanh => Elementwise.numeric Single.arTanh
  | logGamma => Elementwise.numeric Single.logGamma
  | digamma => Elementwise.numeric Single.digamma
  | gammaSign => Elementwise.numeric Single.gammaSign
  | logicalNot => Elementwise.logicalNot

end UnaryFunction

/-- Functions of two elements of one kind. -/
inductive BinaryFunction where
  | add
  | subtract
  | multiply
  | divide
  | truncatedRemainder
  | remainder
  | power
  | angle
  | maximum
  | minimum
  | conjunction
  | disjunction
  | equal
  | unequal
  | less
  | lessEqual
  | greater
  | greaterEqual
  deriving DecidableEq, Repr

namespace BinaryFunction

def operation : BinaryFunction → BinaryOperation
  | add => Elementwise.add
  | subtract => Elementwise.subtract
  | multiply => Elementwise.multiply
  | divide => Elementwise.divide
  | truncatedRemainder => Elementwise.numericPair Single.truncatedRemainder
  | remainder => Elementwise.remainder
  | power => Elementwise.power
  | angle => Elementwise.angle
  | maximum => Elementwise.maximum
  | minimum => Elementwise.minimum
  | conjunction => Elementwise.conjunction
  | disjunction => Elementwise.disjunction
  | equal => Elementwise.equal
  | unequal => Elementwise.unequal
  | less => Elementwise.less
  | lessEqual => Elementwise.lessEqual
  | greater => Elementwise.greater
  | greaterEqual => Elementwise.greaterEqual

end BinaryFunction

/-- What a step computes from its inputs. -/
inductive Primitive where
  | argument (place : Nat)
  | constant (value : Tensor)
  | unary (function : UnaryFunction)
  | binary (function : BinaryFunction)
  /-- A product plus a number, rounded once; either may be negated first. -/
  | fused (negateProduct negateAddend : Bool)
  /-- The second input where the first holds, else the third. -/
  | choose
  /-- The input among elements of a wider kind. -/
  | convert
  /-- The input repeated to a wider shape. -/
  | broadcast
  /-- The input added up to a narrower shape. -/
  | gather
  | total
  /-- The greatest element, or else the least. -/
  | best (greatest : Bool)
  | stack
  | row (place : Nat)
  deriving DecidableEq, Inhabited

structure Step where
  primitive : Primitive
  inputs : List Nat
  kind : ElementKind
  shape : List Nat
  deriving DecidableEq, Inhabited

/-- Steps in an order in which they can be taken, and the one whose value is asked for. -/
structure Kernel where
  steps : Array Step
  output : Nat
  deriving DecidableEq, Inhabited

namespace Step

/-- A product plus a number as elements. -/
def fuse (negateProduct negateAddend : Bool) (left right addend : Element) : Element :=
  let signed (negative : Bool) (number : Float32) : Float32 := if negative then -number else number
  .float (Single.fusedMultiplyAdd (signed negateProduct left.toFloat) right.toFloat
    (signed negateAddend addend.toFloat))

/-- The value of a step from the values of its inputs. -/
def run (arguments : List (Option Tensor)) (step : Step) (inputs : List Tensor) :
    Except Failure Tensor :=
  match step.primitive, inputs with
  | .argument place, _ =>
    match arguments[place]? with
    | some (some tensor) => .ok tensor
    | _ => refuseArrays
  | .constant value, _ => .ok value
  | .unary function, [operand] => .ok (operand.map step.kind function.operation.apply)
  | .binary function, [left, right] => left.zipWith step.kind function.operation.apply right
  | .fused negateProduct negateAddend, [left, right, addend] =>
    let elements := List.zipWith
      (fun factors element => fuse negateProduct negateAddend factors.1 factors.2 element)
      (left.elements.zip right.elements) addend.elements
    .ok ⟨step.kind, step.shape, elements⟩
  | .choose, [condition, yes, no] => Tensor.choose condition yes no
  | .convert, [operand] => .ok (operand.widen step.kind)
  | .broadcast, [operand] => .ok (operand.broadcast step.shape)
  | .gather, [operand] => .ok (operand.gather step.shape)
  | .total, [operand] => .ok operand.sum
  | .best greatest, [operand] =>
    operand.reduce (if greatest then Elementwise.maximum else Elementwise.minimum)
  | .stack, operands => Tensor.stack operands
  | .row place, [operand] => do
    let rows ← operand.rows
    match rows[place]? with
    | some row => return row
    | none => refuseArrays
  | _, _ => refuseArrays

end Step

namespace Kernel

/-- The values of some steps after those computed before. -/
def runSteps (arguments : List (Option Tensor)) : List Step → Array Tensor →
    Except Failure (Array Tensor)
  | [], values => .ok values
  | step :: rest, values => do
    match step.inputs.mapM (values[·]?) with
    | some inputs =>
      let value ← step.run arguments inputs
      runSteps arguments rest (values.push value)
    | none => refuseArrays

/-- The value of a kernel for its arguments, of which some may be missing. -/
def run (kernel : Kernel) (arguments : List (Option Tensor)) : Except Failure Tensor := do
  let values ← runSteps arguments kernel.steps.toList #[]
  match values[kernel.output]? with
  | some value => return value
  | none => refuseArrays

end Kernel

/-- A computation that adds steps to those there are. -/
abbrev Draft := StateT (Array Step) (Except Failure)

namespace Draft

/-- The position of a step: of an equal one if there is one, else at the end. -/
def emit (step : Step) : Draft Nat := do
  let steps ← get
  match steps.findIdx? (· == step) with
  | some position => return position
  | none =>
    set (steps.push step)
    return steps.size

def stepAt (position : Nat) : Draft Step := do
  match (← get)[position]? with
  | some step => return step
  | none => throw .arrays

def constant (value : Tensor) : Draft Nat := emit ⟨.constant value, [], value.kind, value.shape⟩

/-- A constant with one element throughout. -/
def filled (element : Element) (shape : List Nat) : Draft Nat :=
  constant ⟨element.kind, shape, List.replicate (volume shape) element⟩

/-- A constant of the shape of a step. -/
def number (value : Float32) (like : Nat) : Draft Nat := do
  filled (.float value) (← stepAt like).shape

def convert (kind : ElementKind) (operand : Nat) : Draft Nat := do
  let step ← stepAt operand
  if step.kind = kind then return operand else emit ⟨.convert, [operand], kind, step.shape⟩

def broadcast (shape : List Nat) (operand : Nat) : Draft Nat := do
  let step ← stepAt operand
  if step.shape = shape then return operand else emit ⟨.broadcast, [operand], step.kind, shape⟩

def gather (shape : List Nat) (operand : Nat) : Draft Nat := do
  let step ← stepAt operand
  if step.shape = shape then return operand else emit ⟨.gather, [operand], step.kind, shape⟩

def unary (function : UnaryFunction) (operand : Nat) : Draft Nat := do
  let step ← stepAt operand
  emit ⟨.unary function, [operand], step.kind, step.shape⟩

/-- A function of two steps of one kind and shape. -/
def binary (function : BinaryFunction) (left right : Nat) : Draft Nat := do
  let step ← stepAt left
  let kind := (function.operation.kind? step.kind step.kind).getD step.kind
  emit ⟨.binary function, [left, right], kind, step.shape⟩

/-- A choice between steps of one kind and shape. -/
def choose (condition yes no : Nat) : Draft Nat := do
  let step ← stepAt yes
  emit ⟨.choose, [condition, yes, no], step.kind, step.shape⟩

def total (operand : Nat) : Draft Nat := do
  let step ← stepAt operand
  if step.shape = [] then return operand else emit ⟨.total, [operand], step.kind, []⟩

end Draft

end Formula
