import Formula.Failure
import Formula.Heap

/-!
Actions: what operations do to the heap.
-/

namespace Formula

/-- What an operation does: it may build new sequences, change mappings, or fail. -/
abbrev Action := StateT Heap (Except Failure)

namespace Action

def fail {α : Type} (fault : OperandFault) : Action α := throw (.operand fault)

def newList (items : List Value) : Action Value := modifyGet fun heap =>
  let (place, heap) := heap.addSequence items
  (.list place, heap)

def newTuple (items : List Value) : Action Value := modifyGet fun heap =>
  let (place, heap) := heap.addSequence items
  (.tuple place, heap)

def items (place : Nat) : Action (List Value) := return (← get).sequence place

end Action

end Formula
