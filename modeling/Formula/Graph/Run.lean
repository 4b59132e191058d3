import Formula.Tensor.Elementwise

/-!
Running graphs: the nodes are computed in order, each from the values of its inputs.
-/

namespace Formula

/-- What is passed for an argument: a tensor, or a value that becomes one where it is read. -/
inductive Argument where
  | tensor (value : Tensor)
  | scalar (value : Scalar)
  /-- Nothing, which is fine as long as nothing reads it. -/
  | missing
  /-- Something that no tensor can hold. -/
  | other
  deriving Inhabited

namespace Argument

/-- A list becomes a tensor at once. -/
def ofConstant : Constant → Except Failure Argument
  | .scalar value => .ok (.scalar value)
  | .list items => (Tensor.ofConstant (.list items)).map .tensor
  | .missing => .ok .missing
  | .other => .ok .other

def toTensor : Argument → Except Failure Tensor
  | .tensor value => .ok value
  | .scalar value => Tensor.ofConstant (.scalar value)
  | .missing | .other => refuseArrays

/-- The tensor of an argument, if there is one. -/
def toTensor? : Argument → Except Failure (Option Tensor)
  | .missing => .ok none
  | argument => argument.toTensor.map some

end Argument

/-- The value of a node. It is fixed if it is known before any argument that varies. -/
structure Reading where
  tensor : Tensor
  fixed : Bool
  deriving Inhabited

namespace Graph

/-- The fold of a two-place operation over one tensor, or over several from the left. -/
def runExtremum (operation : BinaryOperation) : List Tensor → Except Failure Tensor
  | [] => refuseArrays
  | [tensor] => tensor.reduce operation
  | first :: rest => rest.foldlM (fun best tensor => best.applyBinary operation tensor) first

/-- The operation of a function of one tensor. -/
def unaryFunction? (name : Text) : Option UnaryOperation :=
  if name = Text.ofString "gamma" then some Elementwise.gamma
  else if name = Text.ofString "fac" then some Elementwise.factorial
  else none

/-- The operation of a function of two tensors. -/
def binaryFunction? (name : Text) : Option BinaryOperation :=
  if name = Text.ofString "hypot" ∨ name = Text.ofString "pyt" then some Elementwise.hypotenuse
  else if name = Text.ofString "pow" then some Elementwise.power
  else if name = Text.ofString "atan2" then some Elementwise.angle
  else none

/-- The operation of a function of any number of tensors. -/
def extremumFunction? (name : Text) : Option BinaryOperation :=
  if name = Text.ofString "max" then some Elementwise.maximum
  else if name = Text.ofString "min" then some Elementwise.minimum
  else none

/-- A power. One fixed integer as the exponent makes it a product. -/
def raise (base exponent : Reading) : Except Failure Tensor :=
  match exponent.fixed, exponent.tensor.shape, exponent.tensor.element with
  | true, [], .int times => base.tensor.applyUnary (Elementwise.integerPower times)
  | _, _, _ => base.tensor.applyBinary Elementwise.power exponent.tensor

/-- A sum, over all dimensions or over those that are given and fixed. -/
def sum (operand : Reading) : List (Option Reading) → Except Failure Tensor
  | [] | [none] => .ok operand.tensor.sum
  | [some places] => do
    if places.fixed then
      let dimensions ← Tensor.dimensions operand.tensor.shape.length places.tensor
      return operand.tensor.sumOver dimensions
    else refuseArrays
  | _ => refuseArrays

/-- The value of a call that all inputs are there for. A wrong number of inputs is refused. -/
def runCall (name : Text) (inputs : List Reading) : Except Failure Tensor :=
  let tensors := inputs.map (·.tensor)
  match extremumFunction? name, unaryFunction? name, binaryFunction? name, inputs with
  | some operation, _, _, _ => runExtremum operation tensors
  | none, some operation, _, [operand] => operand.tensor.applyUnary operation
  | none, _, some operation, [left, right] =>
    if name = Text.ofString "pow" then raise left right
    else left.tensor.applyBinary operation right.tensor
  | none, none, none, [condition, yes, no] =>
    if name = Text.ofString "if" then Tensor.choose condition.tensor yes.tensor no.tensor
    else refuseArrays
  | _, _, _, _ => refuseArrays

/-- The inputs, if none is missing. -/
def allThere {α : Type} (inputs : List (Option α)) : Except Failure (List α) :=
  match inputs.mapM id with
  | some inputs => .ok inputs
  | none => refuseArrays

/-- The tensor that a node computes. -/
def nodeTensor (arguments : List (Text × Argument)) (operation : NodeOperation)
    (inputs : List (Option Reading)) : Except Failure Tensor :=
  match operation, inputs with
  | .argument name, _ =>
    match List.lookup name arguments with
    | some argument => argument.toTensor
    | none => refuseArrays
  | .constant value, _ => Tensor.ofConstant value
  | .unary symbol, some operand :: _ =>
    match Elementwise.unary? symbol with
    | some operation => operand.tensor.applyUnary operation
    | none => refuseArrays
  | .binary symbol, some left :: some right :: _ =>
    if symbol = Text.ofString "^" then raise left right
    else
      match Elementwise.binary? symbol with
      | some operation => left.tensor.applyBinary operation right.tensor
      | none => refuseArrays
  | .call name, inputs => do
    if name = Text.ofString "sum" then
      match inputs with
      | some operand :: places => sum operand places
      | _ => refuseArrays
    else
      let inputs ← allThere inputs
      runCall name inputs
  | .vector, inputs => do
    let inputs ← allThere inputs
    Tensor.stack (inputs.map (·.tensor))
  | .choose, [some condition, some yes, some no] =>
    Tensor.choose condition.tensor yes.tensor no.tensor
  | .unknown title, _ => .error (.evaluation (.unknownNode title))
  | _, _ => refuseArrays

/-- The value of a node; arguments are fixed or vary. -/
def runNode (arguments : List (Text × Argument)) (fixed : Bool) (operation : NodeOperation)
    (inputs : List (Option Reading)) : Except Failure Reading := do
  let tensor ← nodeTensor arguments operation inputs
  let known := match operation with
    | .argument _ => fixed
    | _ => inputs.all fun input => input.all (·.fixed)
  return ⟨tensor, known⟩

section

variable {m : Type → Type} [Monad m] [MonadExceptOf Failure m] {α : Type}

/-- The value that an input has so far: none, if its node comes later. There must be such a node. -/
def inputOf (count : Nat) (values : Array α) (position : Nat) : m (Option α) :=
  if position < count then return values[position]? else throw .arrays

/-- The values of some nodes after those computed before, of `count` nodes in all, in any domain in
which operations have a meaning. -/
def runNodes (meaning : NodeOperation → List (Option α) → m α) (count : Nat) :
    List Node → Array α → m (Array α)
  | [], values => return values
  | node :: rest, values => do
    let inputs ← node.inputs.mapM (inputOf count values)
    let value ← meaning node.operation inputs
    runNodes meaning count rest (values.push value)

end

/-- The value of a graph for its arguments, which are fixed or vary. Of two arguments of one name the
later one counts. -/
def runWith (fixed : Bool) (graph : Graph) (arguments : List Argument) : Except Failure Tensor := do
  if arguments.length = graph.arguments.length then
    let named := (graph.arguments.zip arguments).reverse
    let nodes := graph.nodes.toList
    let values ← runNodes (runNode named fixed) nodes.length nodes #[]
    match values[graph.output]? with
    | some value => return value.tensor
    | none => refuseArrays
  else throw (.evaluation (.argumentCount graph.arguments.length arguments.length))

/-- The value of a graph for its arguments. -/
def run (graph : Graph) (arguments : List Argument) : Except Failure Tensor :=
  graph.runWith true arguments

end Graph

end Formula
