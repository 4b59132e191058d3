import Formula.State
import Formula.Member
import Formula.Operation.Apply
import Formula.Text.Reserved

/-!
The machine that runs programs. A program works on a stack of operands in the scope it is given; each
call, and each program inside another, is a request of its own, so that the depth of requests is what
the fuel bounds.
-/

namespace Formula

/-- What the machine is asked to do. -/
inductive Request where
  /-- Run a program with the tables of a dialect in a scope. -/
  | run (dialect : Nat) (program : Program) (scope : Nat)
  | call (function : Value) (arguments : List Value)
  deriving Inhabited

namespace Machine

/-- How requests are answered. -/
abbrev Perform := Request → Eval Value

/-- Where a program runs: the tables it sees, and the scope it reads and writes. -/
structure Frame where
  dialect : Nat
  scope : Nat

abbrev Stack := List Operand

section

variable (perform : Perform)

/-- Calls a function on an element; its index follows, unless the function cannot take it. -/
def callWithIndex (function : Value) (arguments : List Value) (index : Nat) : Eval Value :=
  let takesIndex := match function with
    | .builtin builtin => builtin.arity.takesIndex && builtin.arity.accepts (arguments.length + 1)
    | _ => true
  perform (.call function (if takesIndex then arguments ++ [.int index] else arguments))

/-- The place of the sequence to traverse, and how many elements it has. -/
def traversed (traversal : String) (function collection : Value) : Eval (Nat × Nat) := do
  unless function.isCallable do throw (.traversal (.notFunction traversal))
  match collection.sequence? with
  | some place => return (place, ((← get).heap.sequence place).length)
  | none => throw (.traversal (.notSequence traversal))

/-- An element of a sequence as it is now: the function that is called on each element may change
those after it. -/
def element (place index : Nat) : Eval Value :=
  return ((← get).heap.sequence place)[index]?.getD .null

/-- The results of a function on the elements from an index on. -/
def mapFrom (function : Value) (place index : Nat) : Nat → Eval (List Value)
  | 0 => return []
  | remaining + 1 => do
    let item ← element place index
    let result ← callWithIndex perform function [item] index
    let results ← mapFrom function place (index + 1) remaining
    return result :: results

/-- The elements from an index on for which a function holds. -/
def filterFrom (function : Value) (place index : Nat) : Nat → Eval (List Value)
  | 0 => return []
  | remaining + 1 => do
    let item ← element place index
    let verdict ← callWithIndex perform function [item] index
    let kept := (← get).heap.truth verdict
    let others ← filterFrom function place (index + 1) remaining
    return if kept then item :: others else others

/-- The total of the elements from an index on, each joined to the total before it. -/
def foldFrom (function : Value) (place index : Nat) (total : Value) : Nat → Eval Value
  | 0 => return total
  | remaining + 1 => do
    let item ← element place index
    let total ← callWithIndex perform function [total, item] index
    foldFrom function place (index + 1) total remaining

/-- A random number, scaled unless the factor counts as missing. -/
def random (factor : Value) : Eval Value := do
  let state ← get
  let (number, state) := state.draw
  set state
  let factor := if state.heap.truth factor then factor else .int 1
  Eval.act (Arithmetic.multiply (.float number) factor)

/-- Calls a built-in function. -/
def callBuiltin (function : Builtin) (arguments : List Value) : Eval Value := do
  match function, arguments with
  | .map, [function, collection] =>
    let (place, size) ← traversed "map" function collection
    let results ← mapFrom perform function place 0 size
    Eval.act (Action.newList results)
  | .filter, [function, collection] =>
    let (place, size) ← traversed "filter" function collection
    let results ← filterFrom perform function place 0 size
    Eval.act (Action.newList results)
  | .fold, [function, first, collection] =>
    let (place, size) ← traversed "fold" function collection
    foldFrom perform function place 0 first size
  | .random, [] => random .null
  | .random, [factor] => random factor
  | function, arguments => Eval.act (function.apply arguments)

/-- The names of a scope overlaid with arguments. A surplus on either side is left out. -/
def overlay (heap : Heap) : List Value → List Value → Entries → Except Failure Entries
  | parameter :: parameters, argument :: arguments, entries =>
    if heap.isKey parameter then
      overlay heap parameters arguments (heap.bind parameter argument entries)
    else refuse .wrongType
  | _, _, entries => .ok entries

/-- The value of an operand: a program that has not run yet runs now. -/
def resolve (frame : Frame) : Operand → Eval Value
  | .value value => return value
  | .suspended program => perform (.run frame.dialect program frame.scope)

/-- Calls a function that an expression defined, on a copy of its scope as it is now. -/
def callDefined (function : DefinedFunction) (arguments : List Value) : Eval Value := do
  let state ← get
  let heap := state.heap
  let entries ← overlay heap function.parameters arguments (heap.entries function.scope)
  let (scope, heap) := heap.addMap entries
  set { state with heap := heap }
  resolve perform ⟨function.dialect, scope⟩ function.body

/-- Calls a value. A callable of the host says that it was called. -/
def call (function : Value) (arguments : List Value) : Eval Value := do
  match function with
  | .builtin function => callBuiltin perform function arguments
  | .defined place =>
    match (← get).heap.function? place with
    | some function => callDefined perform function arguments
    | none => Eval.refuse .wrongType
  | .host _ name => return .text (Text.ofString "CALLED " ++ name)
  | _ => Eval.refuse .wrongType

end

/-- Takes the topmost operand. -/
def pop : Stack → Eval (Operand × Stack)
  | [] => Eval.refuse .outOfRange
  | top :: rest => return (top, rest)

/-- Takes some operands, the topmost last in the result. -/
def popMany : Nat → Stack → List Operand → Eval (List Operand × Stack)
  | 0, stack, taken => return (taken, stack)
  | count + 1, stack, taken => do
    let (top, rest) ← pop stack
    popMany count rest (top :: taken)

/-- The entry of a table of operators. -/
def operator (table : Dialect → Table) (frame : Frame) (symbol : Text) : Eval Value := do
  match (table ((← get).dialect frame.dialect)).get? symbol with
  | some function => return function
  | none => throw (.evaluation (.unknownOperator symbol))

/-- The meaning of a name: a function of the dialect, an operator, or what the scope binds. -/
def lookup (frame : Frame) (name : Text) : Eval Value := do
  if Text.isReserved name then throw (.security .reservedName)
  let state ← get
  let dialect := state.dialect frame.dialect
  match dialect.functions.get? name with
  | some function => return function
  | none =>
    match dialect.unary.get? name, dialect.enables name with
    | some function, true => return function
    | _, _ =>
      match state.heap.lookup (.text name) (state.heap.entries frame.scope) with
      | none => throw (.evaluation (.undefinedVariable name))
      | some value =>
        Eval.guardAgainst (.variable name) frame.dialect value
        return value

/-- The value of an operand that is one already. A suspended program names nothing. -/
def unresolved : Operand → Eval Value
  | .value value => return value
  | .suspended _ => Eval.refuse .wrongType

/-- Reads a member. Only trusted callables come out. -/
def readMember (frame : Frame) (target : Value) (name : Text) : Eval Value := do
  if Text.isReserved name then throw (.security .reservedMember)
  match (← get).heap.member target name with
  | .method => throw (.security .member)
  | .value value =>
    Eval.guardAgainst .member frame.dialect value
    return value

/-- Defines a function: it joins the functions of its dialect under a name of its own, and the scope
binds its given name. -/
def define (frame : Frame) (name : Value) (parameters : List Operand) (body : Operand) :
    Eval Value := do
  let state ← get
  set { state with definitions := state.definitions + 1 }
  match name with
  | .text word =>
    let function : DefinedFunction :=
      { name := word
        parameters := parameters.map valueOf
        body := body
        dialect := frame.dialect
        scope := frame.scope }
    let registered := Text.ofString "lambda_" ++ Text.ofNat state.definitions
    let state ← get
    let (place, heap) := state.heap.addFunction function
    let state := { state with heap := heap }.register frame.dialect registered (.defined place)
    set (state.bind frame.scope name (.defined place))
    if parameters.all isText then return .defined place else Eval.refuse .wrongType
  | _ => Eval.refuse .wrongType
where
  /-- A suspended program binds no name that could be read. -/
  valueOf : Operand → Value
    | .value value => value
    | .suspended _ => .null
  isText : Operand → Bool
    | .value (.text _) => true
    | _ => false

section

variable (perform : Perform) (frame : Frame)

/-- Takes some operands and resolves each as it is taken; the topmost is last in the result. -/
def popResolved : Nat → Stack → List Value → Eval (List Value × Stack)
  | 0, stack, taken => return (taken, stack)
  | count + 1, stack, taken => do
    let (top, rest) ← pop stack
    let value ← resolve perform frame top
    popResolved count rest (value :: taken)

/-- Whether an operand counts as met. -/
def holds (operand : Operand) : Eval Bool := do
  let value ← resolve perform frame operand
  return (← get).heap.truth value

/-- The value of an operator with two operands. -/
def binary (symbol : Text) (left right : Operand) : Eval Value := do
  if symbol = Text.ofString "and" then
    if ← holds perform frame left then return .bool (← holds perform frame right)
    else return .bool false
  else if symbol = Text.ofString "or" then
    if ← holds perform frame left then return .bool true
    else return .bool (← holds perform frame right)
  else if symbol = Text.ofString "=" then
    let function ← operator Dialect.binary frame symbol
    let value ← resolve perform frame right
    let name ← unresolved left
    perform (.call function [name, value, .map frame.scope])
  else
    let function ← operator Dialect.binary frame symbol
    let left ← resolve perform frame left
    let right ← resolve perform frame right
    let result ← perform (.call function [left, right])
    if symbol = Text.ofString "[" then Eval.guardAgainst .element frame.dialect result
    return result

/-- Binds a member of a mapping. -/
def assignMember (target name value : Value) : Eval Value := do
  if isReserved name then throw (.security .reservedAssignment)
  match target with
  | .map _ =>
    let function ← operator Dialect.ternary frame (Text.ofString "=")
    perform (.call function [target, name, value])
  | target => throw (.evaluation (.memberOf name target))
where
  isReserved : Value → Bool
    | .text name => Text.isReserved name
    | _ => false

/-- The operand or value of an operator with three operands. -/
def ternary (symbol : Text) (first second third : Operand) : Eval Value := do
  if symbol = Text.ofString "?" then
    let met ← holds perform frame first
    resolve perform frame (if met then second else third)
  else if symbol = Text.ofString "=" then
    let target ← resolve perform frame first
    let value ← resolve perform frame third
    let name ← unresolved second
    assignMember perform frame target name value
  else
    let function ← operator Dialect.ternary frame symbol
    let first ← resolve perform frame first
    let second ← resolve perform frame second
    let third ← resolve perform frame third
    perform (.call function [first, second, third])

/-- Calls a value if it is trusted, with arguments that are trusted as far as they are callable. -/
def callTrusted (function : Value) (arguments : List Value) : Eval Value := do
  unless function.isCallable do throw (.evaluation (.notFunction function))
  Eval.guardAgainst .call frame.dialect function
  for argument in arguments do
    Eval.guardAgainst .argument frame.dialect argument
  perform (.call function arguments)

/-- What an instruction does to the stack. -/
def step (instruction : Instruction) (stack : Stack) : Eval Stack := do
  match instruction with
  | .literal value => return .value value :: stack
  | .target name => return .value (.text name) :: stack
  | .name name => return .value (← lookup frame name) :: stack
  | .nested program | .suspended program => return .suspended program :: stack
  | .unary symbol =>
    let (operand, stack) ← pop stack
    let function ← operator Dialect.unary frame symbol
    let value ← resolve perform frame operand
    return .value (← perform (.call function [value])) :: stack
  | .binary symbol =>
    let (right, stack) ← pop stack
    let (left, stack) ← pop stack
    return .value (← binary perform frame symbol left right) :: stack
  | .ternary symbol =>
    let (third, stack) ← pop stack
    let (second, stack) ← pop stack
    let (first, stack) ← pop stack
    return .value (← ternary perform frame symbol first second third) :: stack
  | .call count =>
    let (arguments, stack) ← popResolved perform frame count.toNat stack []
    let (callee, stack) ← pop stack
    let function ← resolve perform frame callee
    return .value (← callTrusted perform frame function arguments) :: stack
  | .define count =>
    let (body, stack) ← pop stack
    let (parameters, stack) ← popMany count.toNat stack []
    let (name, stack) ← pop stack
    return .value (← define frame (define.valueOf name) parameters body) :: stack
  | .member name =>
    let (target, stack) ← pop stack
    let target ← resolve perform frame target
    return .value (← readMember frame target name) :: stack
  | .discard =>
    let (_, stack) ← pop stack
    return stack
  | .array count =>
    let (items, stack) ← popResolved perform frame count.toNat stack []
    return .value (← Eval.act (Action.newList items)) :: stack

/-- Runs the instructions of a program in order. -/
def steps : Program → Stack → Eval Stack
  | [], stack => return stack
  | instruction :: rest, stack => do
    let stack ← step perform frame instruction stack
    steps rest stack

/-- Negative zero as a result is plain zero. -/
def unsigned : Value → Value
  | .float number => .float (if number == 0.0 then 0.0 else number)
  | value => value

/-- Runs a program; its value is the only operand left, or null if none is left. -/
def run (program : Program) : Eval Value := do
  match ← steps perform frame program [] with
  | [] => return .null
  | [operand] => return unsigned (← resolve perform frame operand)
  | _ => throw (.evaluation .leftoverOperands)

end

/-- Answers a request, further requests being answered by `perform`. -/
def fulfil (perform : Perform) : Perform
  | .run dialect program scope => run perform ⟨dialect, scope⟩ program
  | .call function arguments => call perform function arguments

/-- Answers a request with requests inside each other up to a depth. -/
def perform : Nat → Perform
  | 0 => fun _ => Eval.outOfFuel
  | depth + 1 => fulfil (perform depth)

end Machine

end Formula
