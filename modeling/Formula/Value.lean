import Formula.Builtin

/-!
The values of the language. Compound values are references into a heap, so that sharing and change
are visible.
-/

namespace Formula

inductive Value where
  | null
  | bool (value : Bool)
  | int (value : Int)
  | float (value : Float)
  /-- A number that is none. The serial number tells two of them apart, also where they come to be one
  constant; one that a computation makes is a float without one. -/
  | notANumber (serial : Nat)
  | text (value : Text)
  /-- An immutable sequence, by its place among the heap's sequences. -/
  | tuple (place : Nat)
  /-- A mutable sequence, by its place among the heap's sequences. -/
  | list (place : Nat)
  /-- A mapping, by its place among the heap's mappings. -/
  | map (place : Nat)
  /-- An object with attributes, by the place of their mapping. -/
  | object (place : Nat)
  | builtin (function : Builtin)
  /-- A function that an expression defined, by its place among the heap's functions. -/
  | defined (place : Nat)
  /-- A callable of the host: a serial number tells two of one name apart. -/
  | host (serial : Nat) (name : Text)
  deriving Inhabited

namespace Value

def isCallable : Value → Bool
  | .builtin _ | .defined _ | .host _ _ => true
  | _ => false

/-- Whether two values are one and the same callable. -/
def sameCallable : Value → Value → Bool
  | .builtin left, .builtin right => left = right
  | .defined left, .defined right => left = right
  | .host left _, .host right _ => left = right
  | _, _ => false

/-- The number that is none with which functions answer. -/
def standardNotANumber : Value := .notANumber 0

def isNotANumber : Value → Bool
  | .float number => number.isNaN
  | .notANumber _ => true
  | _ => false

/-- The place of the elements of a sequence. -/
def sequence? : Value → Option Nat
  | .tuple place | .list place => some place
  | _ => none

/-- The name of the value's type, as it stands in messages. -/
def typeName : Value → Text
  | .null => Text.ofString "NoneType"
  | .bool _ => Text.ofString "bool"
  | .int _ => Text.ofString "int"
  | .float _ | .notANumber _ => Text.ofString "float"
  | .text _ => Text.ofString "str"
  | .tuple _ => Text.ofString "tuple"
  | .list _ => Text.ofString "list"
  | .map _ => Text.ofString "dict"
  | .object _ => Text.ofString "SimpleNamespace"
  | .builtin function =>
    if function.isMathematical then Text.ofString "builtin_function_or_method"
    else Text.ofString "function"
  | .defined _ => Text.ofString "function"
  | .host _ _ => Text.ofString "function"

end Value

end Formula
