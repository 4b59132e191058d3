import Formula.Heap
import Formula.Number.Layout
import Formula.Text.Quoted

/-!
The text of a value, in each of the forms in which the language writes values.
-/

namespace Formula

/-- The text of a number in the plain layout. -/
def Text.ofFloat (number : Float) : Text := NumberLayout.plain.write number

/-- What a message shows in place of something that has no text of its own. -/
def opaqueText (kind : String) : Text := Text.ofString ("<" ++ kind ++ ">")

namespace Heap

/-- A place in the heap: of a sequence or of a mapping. -/
inductive Place where
  | sequence (place : Nat)
  | map (place : Nat)
  deriving DecidableEq

def separator : Text := Text.ofString ", "

/-- The form of a value in messages. A value inside itself is shown as dots. -/
def shownWithin (heap : Heap) : Nat → List Place → Value → Text
  | 0, _, _ => []
  | depth + 1, outer, value =>
    let items (place : Nat) : List Text :=
      (heap.sequence place).map (heap.shownWithin depth (.sequence place :: outer))
    match value with
    | .null => Text.ofString "None"
    | .bool value => Text.ofString (if value then "True" else "False")
    | .int value => Text.ofInt value
    | .float value => Text.ofFloat value
    | .notANumber _ => Text.ofFloat Double.notANumber
    | .text content => Text.shown content
    | .tuple place =>
      if Place.sequence place ∈ outer then Text.ofString "(...)"
      else
        match items place with
        | [item] => Text.ofString "(" ++ item ++ Text.ofString ",)"
        | items => Text.ofString "(" ++ Text.join separator items ++ Text.ofString ")"
    | .list place =>
      if Place.sequence place ∈ outer then Text.ofString "[...]"
      else Text.ofString "[" ++ Text.join separator (items place) ++ Text.ofString "]"
    | .map place =>
      if Place.map place ∈ outer then Text.ofString "\x7b...\x7d"
      else
        let entries := (heap.entries place).map fun (key, item) =>
          heap.shownWithin depth (.map place :: outer) key ++ Text.ofString ": " ++
            heap.shownWithin depth (.map place :: outer) item
        Text.ofString "\x7b" ++ Text.join separator entries ++ Text.ofString "\x7d"
    | .object _ => opaqueText "object"
    | .builtin _ | .defined _ | .host _ _ => opaqueText "function"

def shown (heap : Heap) (value : Value) : Text := heap.shownWithin heap.depth [] value

/-- The form of a value in listings: a text stands for itself. -/
def plain (heap : Heap) : Value → Text
  | .text content => content
  | value => heap.shown value

/-- The form of a value as a part of a longer text: booleans and the missing value in lower case,
whole numbers without a fraction, sequences as their elements with commas between. -/
def spelledWithin (heap : Heap) : Nat → Value → Text
  | 0, _ => []
  | depth + 1, value =>
    match value with
    | .null => Text.ofString "null"
    | .bool value => Text.ofString (if value then "true" else "false")
    | .float number =>
      match Double.kind number with
      | .finite exact => if exact.isIntegral then Text.ofInt exact.truncate else Text.ofFloat number
      | _ => Text.ofFloat number
    | .tuple place | .list place =>
      Text.join (Text.ofString ",") ((heap.sequence place).map (heap.spelledWithin depth))
    | value => heap.plain value

def spelled (heap : Heap) (value : Value) : Text := heap.spelledWithin heap.depth value

/-- The form of a value in source text: it reads back, as far as the language has a literal. -/
def literalWithin (heap : Heap) : Nat → Value → Text
  | 0, _ => []
  | depth + 1, value =>
    match value with
    | .null => Text.ofString "null"
    | .bool value => Text.ofString (if value then "true" else "false")
    | .text content => Text.literal content
    | .tuple place | .list place =>
      Text.ofString "[" ++
        Text.join separator ((heap.sequence place).map (heap.literalWithin depth)) ++
        Text.ofString "]"
    | value => heap.plain value

def literal (heap : Heap) (value : Value) : Text := heap.literalWithin heap.depth value

/-- Whether the text of a value would show a callable or an object, which have no text. -/
def hidesWithin (heap : Heap) : Nat → Value → Bool
  | 0, _ => false
  | depth + 1, value =>
    match value with
    | .object _ | .builtin _ | .defined _ | .host _ _ => true
    | .tuple place | .list place => (heap.sequence place).any (heap.hidesWithin depth)
    | .map place => (heap.entries place).any fun (key, item) =>
      heap.hidesWithin depth key || heap.hidesWithin depth item
    | _ => false

def hides (heap : Heap) (value : Value) : Bool := heap.hidesWithin heap.depth value

end Heap

end Formula
