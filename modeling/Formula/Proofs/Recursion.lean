import Formula.Proofs.Definition
import Formula.Proofs.Stepping
import Formula.Term

/-!
Evaluation by recursion on terms, without programs and without a stack. Each part of a term comes to a
value, or to something deferred that runs once its value is taken, and each operator takes the values of
its parts in an order of its own. As with the machine, what runs inside something else and what is called
is a task of its own, and the fuel bounds how deep tasks are nested.
-/

namespace Formula

namespace Recursion

/-- What runs later, if its value is asked for. -/
inductive Deferred where
  | whole (term : Term)
  /-- Statements, of which the first leaves no value. -/
  | statements (first rest : Term)

/-- What a part of a term comes to. -/
inductive Part where
  | value (value : Value)
  | deferred (deferred : Deferred)

/-- A function that a term defined. Its body runs on a copy of the defining scope. -/
structure Closure where
  name : Text
  parameters : List Text
  body : Term
  /-- The dialect whose tables the body sees. -/
  dialect : Nat
  /-- The place of the defining scope among the heap's mappings. -/
  scope : Nat

/-- A state whose functions are closures. Those in the heap of the state do not count. -/
structure World where
  state : State
  closures : Array Closure

/-- The world in which a closure is known: it joins the functions of its dialect under a name of its own,
and its scope binds its given name. -/
def World.define (world : World) (closure : Closure) : World :=
  let function := Value.defined world.closures.size
  let registered := registeredName world.state.definitions
  { state := (world.state.count.register closure.dialect registered function).bind closure.scope
      (.text closure.name) function
    closures := world.closures.push closure }

/-- A computation on a world. It has no result if the fuel runs out; after a failure the world is as the
failure left it. -/
abbrev Compute := ExceptT Failure (StateT World Option)

/-- A computation that neither defines nor calls a function. -/
def ofEval {α : Type} (computation : Eval α) : Compute α := fun world =>
  (computation world.state).map fun (outcome, state) => (outcome, { world with state := state })

/-- What is to be worked out. -/
inductive Task where
  /-- Something deferred, with the tables of a dialect in a scope. -/
  | run (dialect : Nat) (deferred : Deferred) (scope : Nat)
  | call (function : Value) (arguments : List Value)

/-- How tasks are carried out. -/
abbrev Perform := Task → Compute Value

open Machine (Frame withIndex)

section

variable (perform : Perform)

/-! Calls. -/

/-- The results of a function on the elements from an index on. -/
def mapFrom (function : Value) (place index : Nat) : Nat → Compute (List Value)
  | 0 => return []
  | remaining + 1 => do
    let item ← ofEval (Machine.element place index)
    let result ← perform (.call function (withIndex function [item] index))
    let results ← mapFrom function place (index + 1) remaining
    return result :: results

/-- The elements from an index on for which a function holds. -/
def filterFrom (function : Value) (place index : Nat) : Nat → Compute (List Value)
  | 0 => return []
  | remaining + 1 => do
    let item ← ofEval (Machine.element place index)
    let verdict ← perform (.call function (withIndex function [item] index))
    let kept := (← get).state.heap.truth verdict
    let others ← filterFrom function place (index + 1) remaining
    return if kept then item :: others else others

/-- The total of the elements from an index on, each joined to the total before it. -/
def foldFrom (function : Value) (place index : Nat) (total : Value) : Nat → Compute Value
  | 0 => return total
  | remaining + 1 => do
    let item ← ofEval (Machine.element place index)
    let total ← perform (.call function (withIndex function [total, item] index))
    foldFrom function place (index + 1) total remaining

def callBuiltin (function : Builtin) (arguments : List Value) : Compute Value := do
  match function, arguments with
  | .map, [function, collection] =>
    let (place, size) ← ofEval (Machine.traversed "map" function collection)
    let results ← mapFrom perform function place 0 size
    ofEval (Eval.act (Action.newList results))
  | .filter, [function, collection] =>
    let (place, size) ← ofEval (Machine.traversed "filter" function collection)
    let results ← filterFrom perform function place 0 size
    ofEval (Eval.act (Action.newList results))
  | .fold, [function, first, collection] =>
    let (place, size) ← ofEval (Machine.traversed "fold" function collection)
    foldFrom perform function place 0 first size
  | .random, [] => ofEval (Machine.random .null)
  | .random, [factor] => ofEval (Machine.random factor)
  | function, arguments => ofEval (Eval.act (function.apply arguments))

/-- The place of a new scope: a copy of a closure's scope as it is now, overlaid with arguments. -/
def enter (closure : Closure) (arguments : List Value) : Eval Nat := do
  let state ← get
  let parameters := closure.parameters.map Value.text
  let entries ← Machine.overlay state.heap parameters arguments (state.heap.entries closure.scope)
  let (scope, heap) := state.heap.addMap entries
  set { state with heap := heap }
  return scope

/-- Calls a value. -/
def call (function : Value) (arguments : List Value) : Compute Value := do
  match function with
  | .builtin function => callBuiltin perform function arguments
  | .defined place =>
    match (← get).closures[place]? with
    | some closure =>
      let scope ← ofEval (enter closure arguments)
      perform (.run closure.dialect (.whole closure.body) scope)
    | none => ofEval (Eval.refuse .wrongType)
  | .host _ name => return .text (Text.ofString "CALLED " ++ name)
  | _ => ofEval (Eval.refuse .wrongType)

variable (frame : Frame)

/-! Operators on parts. -/

/-- The value of a part. -/
def resolve : Part → Compute Value
  | .value value => return value
  | .deferred deferred => perform (.run frame.dialect deferred frame.scope)

/-- The values of some parts. The last part is the first to run. -/
def resolveAll : List Part → Compute (List Value)
  | [] => return []
  | part :: rest => do
    let values ← resolveAll rest
    let value ← resolve perform frame part
    return value :: values

/-- Whether a part counts as met. -/
def holds (part : Part) : Compute Bool := do
  let value ← resolve perform frame part
  return (← get).state.heap.truth value

/-- The name that a part is. -/
def named : Part → Compute Value
  | .value value => return value
  | .deferred _ => ofEval (Eval.refuse .wrongType)

/-- The value of an operator with two operands. The right side of `and` and `or` runs only if it decides. -/
def binary (symbol : Text) (left right : Part) : Compute Value := do
  if symbol = Text.ofString "and" then
    if ← holds perform frame left then return .bool (← holds perform frame right)
    else return .bool false
  else if symbol = Text.ofString "or" then
    if ← holds perform frame left then return .bool true
    else return .bool (← holds perform frame right)
  else if symbol = Text.ofString "=" then
    let function ← ofEval (Machine.operator Dialect.binary frame symbol)
    let value ← resolve perform frame right
    let name ← named left
    perform (.call function [name, value, .map frame.scope])
  else
    let function ← ofEval (Machine.operator Dialect.binary frame symbol)
    let left ← resolve perform frame left
    let right ← resolve perform frame right
    let result ← perform (.call function [left, right])
    if symbol = Text.ofString "[" then
      ofEval (Eval.guardAgainst .element frame.dialect result)
    return result

/-- Binds a member of a mapping. -/
def assignMember (target : Value) (name : Text) (value : Value) : Compute Value := do
  if Text.isReserved name then throw (.security .reservedAssignment)
  match target with
  | .map _ =>
    let function ← ofEval (Machine.operator Dialect.ternary frame (Text.ofString "="))
    perform (.call function [target, .text name, value])
  | target => throw (.evaluation (.memberOf (.text name) target))

/-- Calls a value if it is trusted, with arguments that are trusted as far as they are callable. -/
def callTrusted (function : Value) (arguments : List Value) : Compute Value := do
  unless function.isCallable do throw (.evaluation (.notFunction function))
  ofEval (Eval.guardAgainst .call frame.dialect function)
  ofEval (Machine.guardAll frame arguments)
  perform (.call function arguments)

/-- Defines a function, and its value is that function. -/
def define (name : Text) (parameters : List Text) (body : Term) : Compute Value := do
  let world ← get
  set (world.define ⟨name, parameters, body, frame.dialect, frame.scope⟩)
  return .defined world.closures.size

/-! Terms. -/

mutual

/-- What a term comes to as a part. Its parts are visited from left to right. -/
def part : Term → Compute Part
  | .literal value => return .value value
  | .name name => return .value (← ofEval (Machine.lookup frame name))
  | .unary symbol operand => do
    let operand ← part operand
    let function ← ofEval (Machine.operator Dialect.unary frame symbol)
    let value ← resolve perform frame operand
    return .value (← perform (.call function [value]))
  | .binary symbol left right => do
    let left ← part left
    let right ← part right
    return .value (← binary perform frame symbol left right)
  | .shortCircuit symbol left right => do
    let left ← part left
    return .value (← binary perform frame symbol left (.deferred (.whole right)))
  | .conditional condition yes no => do
    let condition ← part condition
    let met ← holds perform frame condition
    return .value (← resolve perform frame (.deferred (.whole (if met then yes else no))))
  | .assign name value =>
    return .value
      (← binary perform frame Term.assignSymbol (.value (.text name)) (.deferred (.whole value)))
  | .assignMember object name value => do
    let object ← part object
    let target ← resolve perform frame object
    let value ← resolve perform frame (.deferred (.whole value))
    return .value (← assignMember perform frame target name value)
  | .define name parameters body => return .value (← define frame name parameters body)
  | .call callee arguments => do
    let callee ← part callee
    let arguments ← parts arguments
    let arguments ← resolveAll perform frame arguments
    let function ← resolve perform frame callee
    return .value (← callTrusted perform frame function arguments)
  | .member object name => do
    let object ← part object
    let target ← resolve perform frame object
    return .value (← ofEval (Machine.readMember frame target name))
  | .array items => do
    let items ← parts items
    let items ← resolveAll perform frame items
    return .value (← ofEval (Eval.act (Action.newList items)))
  | .statement body => return .deferred (.whole body)
  | .sequence first rest => return .deferred (.statements first rest)

def parts : List Term → Compute (List Part)
  | [] => return []
  | term :: rest => do
    let part ← part term
    let parts ← parts rest
    return part :: parts

end

/-- The value of something deferred. A statement that is not the last is dropped, and if it is deferred
itself it never runs. -/
def run : Deferred → Compute Value
  | .whole term => do
    let part ← part perform frame term
    return Machine.unsigned (← resolve perform frame part)
  | .statements first rest => do
    let _ ← part perform frame first
    let part ← part perform frame rest
    return Machine.unsigned (← resolve perform frame part)

end

/-- Carries out a task, further tasks being carried out by `perform`. -/
def fulfil (perform : Perform) : Perform
  | .run dialect deferred scope => run perform ⟨dialect, scope⟩ deferred
  | .call function arguments => call perform function arguments

/-- Carries out a task with tasks inside each other up to a depth. -/
def perform : Nat → Perform
  | 0 => fun _ => ExceptT.mk fun _ => none
  | depth + 1 => fulfil (perform depth)

/-- The value of a term in a scope. -/
def evaluate (depth dialect : Nat) (term : Term) (scope : Nat) : Compute Value :=
  perform depth (.run dialect (.whole term) scope)

/-- Elements of an array are visited from left to right, but those that are sequences run from right to
left when the array takes them: `[(x = 5; x), (x = 2; x), x]` with one for `x`. -/
example :
    let name := Text.ofString "x"
    let assign (value : Int) : Term := .sequence (.assign name (.literal (.int value))) (.name name)
    let heap : Heap := { maps := #[[(.text name, .int 1)]] }
    let world : World := ⟨{ heap := heap, dialects := #[.standard {}] }, #[]⟩
    ((evaluate 3 0 (.array [assign 5, assign 2, .name name]) 0 world).map fun came =>
      (came.2.state.heap.sequence 0).map fun
        | .int item => item
        | _ => 0) = some [5, 2, 1] := by
  decide +kernel

end Recursion

end Formula
