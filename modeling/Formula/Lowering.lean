import Formula.Graph
import Formula.Dialect
import Formula.Program
import Formula.Failure
import Formula.Heap

/-!
Lowering: the graph of array operations that computes the same as a program of numbers. What a
program would skip is computed too, and equal nodes are shared.
-/

namespace Formula

/-- Operators of one operand that arrays know. -/
def unaryArrayOperators : List Text :=
  ["-", "+", "abs", "sin", "cos", "tan", "asin", "acos", "atan", "sinh", "cosh", "tanh", "asinh",
   "acosh", "atanh", "sqrt", "cbrt", "log", "ln", "log2", "lg", "log10", "expm1", "log1p", "exp",
   "ceil", "floor", "round", "trunc", "sign", "not", "!"].map Text.ofString

/-- Operators of two operands that arrays know. -/
def binaryArrayOperators : List Text :=
  ["+", "-", "*", "/", "%", "^", "==", "!=", "<", "<=", ">", ">=", "and", "or"].map Text.ofString

/-- Functions that arrays know. -/
def arrayFunctions : List Text :=
  ["hypot", "pyt", "pow", "atan2", "if", "gamma", "fac", "sum", "min", "max"].map Text.ofString

namespace Lowering

/-- What stands on the stack while a program is lowered. -/
inductive Entry where
  | node (position : Nat)
  /-- The name of a function that waits for its call. -/
  | function (name : Text)

abbrev Stack := List Entry

/-- A computation that adds nodes to those there are. -/
abbrev Build := StateT (Array Node) (Except Failure)

def unsupported {α : Type} (cause : UnsupportedCause) : Build α := throw (.unsupported cause)

/-- The position of a node: of an equal one if there is one, else at the end. -/
def share (node : Node) : Build Nat := do
  let nodes ← get
  match nodes.findIdx? node.merges with
  | some position => return position
  | none =>
    set (nodes.push node)
    return nodes.size

def pop : Stack → Build (Entry × Stack)
  | [] => throw (.operand .outOfRange)
  | top :: rest => return (top, rest)

/-- The node of an operand. A function is none. -/
def node (place : Text) : Entry → Build Nat
  | .node position => return position
  | .function name => unsupported (.functionOperand name place)

/-- The node of the topmost operand. -/
def popNode (place : Text) (stack : Stack) : Build (Nat × Stack) := do
  let (top, rest) ← pop stack
  return (← node place top, rest)

/-- The nodes of the topmost operands; the topmost is last in the result. -/
def popNodes (place : Text) : Nat → Stack → List Nat → Build (List Nat × Stack)
  | 0, stack, taken => return (taken, stack)
  | count + 1, stack, taken => do
    let (top, rest) ← popNode place stack
    popNodes place count rest (top :: taken)

def scalar? : Value → Option Scalar
  | .bool value => some (.bool value)
  | .int value => some (.int value)
  | .float value => some (.float value)
  | .notANumber serial => some (.notANumber serial)
  | _ => none

/-- The constant that a literal is: a scalar, or a list of scalars. -/
def constant? (heap : Heap) (value : Value) : Option Constant :=
  match scalar? value, value.sequence? with
  | some scalar, _ => some (.scalar scalar)
  | none, some place =>
    ((heap.sequence place).mapM scalar?).map fun items => .list (items.map .scalar)
  | none, none => none

section

variable (heap : Heap) (arguments : List Text) (functions : Table)

mutual

/-- What an instruction does to the stack. -/
def lowerInstruction (stack : Stack) (instruction : Instruction) : Build Stack := do
  match instruction with
  | .literal value =>
    match constant? heap value with
    | some constant => return .node (← share { operation := .constant constant }) :: stack
    | none => unsupported (.literal value)
  | .name name =>
    if name ∈ arguments then return .node (← share { operation := .argument name }) :: stack
    else if name ∈ arrayFunctions ∧ functions.holds name then return .function name :: stack
    else unsupported (.freeName name)
  | .unary symbol =>
    unless symbol ∈ unaryArrayOperators do unsupported (.unaryOperator symbol)
    let (operand, stack) ← popNode symbol stack
    return .node (← share ⟨.unary symbol, [operand]⟩) :: stack
  | .binary symbol =>
    unless symbol ∈ binaryArrayOperators do unsupported (.binaryOperator symbol)
    let (right, stack) ← popNode symbol stack
    let (left, stack) ← popNode symbol stack
    return .node (← share ⟨.binary symbol, [left, right]⟩) :: stack
  | .ternary symbol =>
    unless symbol = Text.ofString "?" do unsupported (.ternaryOperator symbol)
    let (no, stack) ← popNode symbol stack
    let (yes, stack) ← popNode symbol stack
    let (condition, stack) ← popNode symbol stack
    return .node (← share ⟨.choose, [condition, yes, no]⟩) :: stack
  | .call count =>
    let (inputs, stack) ← popNodes (Text.ofString "call") count.toNat stack []
    let (callee, stack) ← pop stack
    match callee with
    | .function name => return .node (← share ⟨.call name, inputs⟩) :: stack
    | .node _ => unsupported .computedCall
  | .array count =>
    let (inputs, stack) ← popNodes (Text.ofString "array") count.toNat stack []
    return .node (← share ⟨.vector, inputs⟩) :: stack
  | .nested program => return .node (← lowerProgram [] program) :: stack
  | .discard =>
    let (_, stack) ← pop stack
    return stack
  | .target _ => unsupported (.instruction (Text.ofString "VARNAME"))
  | .define _ => unsupported (.instruction (Text.ofString "FUNDEF"))
  | .member _ => unsupported (.instruction (Text.ofString "MEMBER"))
  | .suspended _ => unsupported (.instruction (Text.ofString "EXPREVAL"))

/-- The node that computes the value of a program, the only entry that it leaves. -/
def lowerProgram (stack : Stack) (program : List Instruction) : Build Nat := do
  match program, stack with
  | [], [entry] => node (Text.ofString "result") entry
  | [], _ => unsupported .valueCount
  | instruction :: rest, stack =>
    let stack ← lowerInstruction stack instruction
    lowerProgram stack rest

end

end

end Lowering

/-- The graph of a program. -/
def Program.lower (heap : Heap) (functions : Table) (arguments : List Text) (program : Program) :
    Except Failure Graph := do
  let (output, nodes) ← (Lowering.lowerProgram heap arguments functions [] program).run #[]
  return { nodes := nodes, output := output, arguments := arguments }

end Formula
