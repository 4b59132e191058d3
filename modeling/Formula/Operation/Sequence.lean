import Formula.Operation.Action
import Formula.Operation.Comparison
import Formula.Number.Reading
import Formula.Value.Written

/-!
Texts, sequences and mappings: their length, their parts, what they contain, and how they change.
-/

namespace Formula

namespace Sequence

/-- Two sequences joined to a new list; other values are joined as texts. -/
def concat (left right : Value) : Action Value := do
  match left.sequence?, right.sequence? with
  | some left, some right => Action.newList ((← Action.items left) ++ (← Action.items right))
  | _, _ =>
    let heap ← get
    return .text (heap.spelled left ++ heap.spelled right)

/-- The number of elements, or the length of the text of another value. -/
def length (heap : Heap) (value : Value) : Nat :=
  match value.sequence? with
  | some place => (heap.sequence place).length
  | none => (heap.spelled value).length

/-- The place that an index means. Fractions are dropped, and texts are read. -/
def position : Value → Except Failure Int
  | .text content =>
    match Reading.integer? content with
    | some position => .ok position
    | none => refuse .badValue
  | index => do
    let index ← index.numeric
    index.toInteger Dyadic.truncate

/-- The element at an index, counted from zero; nothing outside the sequence. A mapping is read by
key. -/
def index (heap : Heap) (collection index : Value) : Except Failure Value := do
  let position ← position index
  if position < 0 then return .null
  else
    let place := position.toNat
    match collection with
    | .text content => return (content[place]?.map fun point => .text [point]).getD .null
    | .tuple items | .list items => return (heap.sequence items)[place]?.getD .null
    | .map entries =>
      if place < (heap.entries entries).length then
        match heap.lookup (.int position) (heap.entries entries) with
        | some value => return value
        | none => refuse .missingKey
      else return .null
    | _ => refuse .wrongType

/-- Whether a text is part of another, a value an element, or a key one of a mapping. -/
def contains (heap : Heap) (value : Value) : Value → Except Failure Bool
  | .text content => .ok (Text.indexOf? (heap.spelled value) content).isSome
  | .tuple items | .list items => .ok ((heap.sequence items).any (heap.same value))
  | .map entries => .ok ((heap.entries entries).any fun entry => heap.same value entry.1)
  | _ => refuse .wrongType

/-- Where a value first occurs in a text or sequence; minus one if it does not. -/
def indexOf (heap : Heap) (value collection : Value) : Except Failure Int :=
  let found : Option Nat → Int
    | some place => place
    | none => -1
  match collection with
  | .text content => .ok (found (Text.indexOf? (heap.spelled value) content))
  | .tuple items | .list items =>
    .ok (found ((heap.sequence items).findIdx? fun item => heap.same item value))
  | _ => .error (.traversal .searchInOther)

/-- The elements as texts with a separator between them. -/
def join (heap : Heap) (separator collection : Value) : Except Failure Text :=
  match collection.sequence? with
  | some items =>
    .ok (Text.join (heap.spelled separator) ((heap.sequence items).map heap.spelled))
  | none => .error (.traversal (.notSequence "join"))

/-- The first value that no later one beats. -/
def best (heap : Heap) (test : OrderTest) : Value → List Value → Except Failure Value
  | champion, [] => .ok champion
  | champion, next :: rest => do
    let beaten ← heap.test test next champion
    best heap test (if beaten then next else champion) rest

/-- The best of some values, or of the elements of the only one. Of none it is the limit. -/
def extremum (heap : Heap) (test : OrderTest) (limit : Float) (values : List Value) :
    Except Failure Value :=
  let contestants := match values with
    | [value] => (value.sequence?.map heap.sequence).getD [value]
    | values => values
  match contestants with
  | [] => .ok (.float limit)
  | first :: rest => best heap test first rest

/-- The place that an integer names in a sequence of some length, negative ones from the end. -/
def placeOf? (length : Nat) (position : Int) : Option Nat :=
  if 0 ≤ position then if position.toNat < length then some position.toNat else none
  else if 0 ≤ length + position then some (length + position).toNat else none

/-- Changes an element of a list or the value of a key, and gives the new value. -/
def assign (collection key value : Value) : Action Value := do
  match collection, key with
  | .map place, key =>
    let heap ← get
    if heap.isKey key then
      set (heap.setEntries place (heap.bind key value (heap.entries place)))
      return value
    else Action.fail .wrongType
  | .list place, .int position => replace place position
  | .list place, .bool position => replace place position.toNat
  | _, _ => Action.fail .wrongType
where
  replace (place : Nat) (position : Int) : Action Value := do
    let heap ← get
    let items := heap.sequence place
    match placeOf? items.length position with
    | some index =>
      set (heap.setSequence place (items.set index value))
      return value
    | none => Action.fail .outOfRange

end Sequence

end Formula
