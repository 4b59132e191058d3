import Formula.Program

/-!
The heap: sequences, mappings and functions that values refer to.
-/

namespace Formula

/-- An operand of the stack: a value, or a program that has not run yet. -/
inductive Operand where
  | value (value : Value)
  | suspended (program : Program)
  deriving Inhabited

/-- A function that an expression defined. Its body runs on a copy of the defining scope. -/
structure DefinedFunction where
  name : Text
  parameters : List Value
  body : Operand
  /-- The dialect whose tables the body sees. -/
  dialect : Nat
  /-- The place of the defining scope among the heap's mappings. -/
  scope : Nat
  deriving Inhabited

/-- A mapping, in order of insertion. -/
abbrev Entries := List (Value × Value)

structure Heap where
  sequences : Array (List Value) := #[]
  maps : Array Entries := #[]
  functions : Array DefinedFunction := #[]
  /-- How many host callables there are. -/
  hosts : Nat := 0
  /-- How many numbers that are none there are; functions answer with the first one. -/
  notNumbers : Nat := 1
  deriving Inhabited

namespace Heap

def sequence (heap : Heap) (place : Nat) : List Value := heap.sequences.getD place []

def entries (heap : Heap) (place : Nat) : Entries := heap.maps.getD place []

def function? (heap : Heap) (place : Nat) : Option DefinedFunction := heap.functions[place]?

def addSequence (heap : Heap) (items : List Value) : Nat × Heap :=
  (heap.sequences.size, { heap with sequences := heap.sequences.push items })

def addMap (heap : Heap) (entries : Entries) : Nat × Heap :=
  (heap.maps.size, { heap with maps := heap.maps.push entries })

def addFunction (heap : Heap) (function : DefinedFunction) : Nat × Heap :=
  (heap.functions.size, { heap with functions := heap.functions.push function })

def addHost (heap : Heap) (name : Text) : Value × Heap :=
  (.host heap.hosts name, { heap with hosts := heap.hosts + 1 })

def addNotANumber (heap : Heap) : Value × Heap :=
  (.notANumber heap.notNumbers, { heap with notNumbers := heap.notNumbers + 1 })

def setSequence (heap : Heap) (place : Nat) (items : List Value) : Heap :=
  { heap with sequences := heap.sequences.setIfInBounds place items }

def setEntries (heap : Heap) (place : Nat) (entries : Entries) : Heap :=
  { heap with maps := heap.maps.setIfInBounds place entries }

/-- A bound on how deep values nest: a path through the heap that meets no place twice is shorter. -/
def depth (heap : Heap) : Nat := heap.sequences.size + heap.maps.size + 1

end Heap

end Formula
