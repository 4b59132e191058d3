import Formula.Dialect
import Formula.Operation.Action
import Formula.Operation.Comparison

/-!
The state of an evaluation, and computations on it that may fail or run out of fuel.
-/

namespace Formula

structure State where
  heap : Heap := {}
  dialects : Array Dialect := #[]
  /-- How many functions expressions have defined, in all dialects together. -/
  definitions : Nat := 0
  /-- Where the random numbers come from. -/
  seed : Nat := 0
  deriving Inhabited

namespace State

def dialect (state : State) (place : Nat) : Dialect := state.dialects.getD place default

/-- Adds a function to those of a dialect. -/
def register (state : State) (dialect : Nat) (name : Text) (function : Value) : State :=
  let known := state.dialect dialect
  let extended := { known with functions := known.functions.insert name function }
  { state with dialects := state.dialects.setIfInBounds dialect extended }

/-- Binds a name in a scope. -/
def bind (state : State) (scope : Nat) (name value : Value) : State :=
  let entries := state.heap.bind name value (state.heap.entries scope)
  { state with heap := state.heap.setEntries scope entries }

/-- A random number from zero to one, without one itself. -/
def draw (state : State) : Float × State :=
  let seed := (state.seed * 6364136223846793005 + 1442695040888963407) % twoTo 64
  (Double.ofQuotient false (seed / twoTo 11) (twoTo 53), { state with seed := seed })

end State

/-- A computation on the state. It has no result if the fuel runs out; after a failure the state is
as the failure left it. -/
abbrev Eval := ExceptT Failure (StateT State Option)

namespace Eval

def outOfFuel {α : Type} : Eval α := ExceptT.mk fun _ => none

def refuse {α : Type} (fault : OperandFault) : Eval α := throw (.operand fault)

/-- An operation on the heap. If it fails it changes nothing. -/
def act {α : Type} (action : Action α) : Eval α := do
  let state ← get
  match action state.heap with
  | .ok (result, heap) =>
    set { state with heap := heap }
    return result
  | .error failure => throw failure

/-- Whether the tables of a dialect hold a callable. -/
def trusts (dialect : Nat) (callable : Value) : Eval Bool :=
  return ((← get).dialect dialect).trusts callable

/-- Fails unless a value is either trusted or not callable at all. -/
def guardAgainst (cause : SecurityCause) (dialect : Nat) (value : Value) : Eval Unit := do
  if value.isCallable then
    unless ← trusts dialect value do throw (.security cause)

end Eval

end Formula
