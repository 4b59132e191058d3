import Formula.Heap
import Formula.Operation.Numeric

/-!
Truth, equality and order of values.
-/

namespace Formula

namespace Heap

/-- Whether a condition counts as met: zero, nothing and emptiness do not. -/
def truth (heap : Heap) : Value → Bool
  | .null => false
  | .bool value => value
  | .int value => value != 0
  | .float value => value != 0.0
  | .text content => !content.isEmpty
  | .tuple place | .list place => !(heap.sequence place).isEmpty
  | .map place => !(heap.entries place).isEmpty
  | .notANumber _ | .object _ | .builtin _ | .defined _ | .host _ _ => true

/-- Element by element, to the end of both. -/
def allPairs (equal : Value → Value → Bool) : List Value → List Value → Bool
  | [], [] => true
  | left :: lefts, right :: rights => equal left right && allPairs equal lefts rights
  | _, _ => false

/-- The value that entries hold for a key. -/
def lookupWith (equal : Value → Value → Bool) (key : Value) (entries : Entries) : Option Value :=
  (entries.find? fun entry => equal entry.1 key).map (·.2)

/-- The same keys with equal values, in any order. -/
def sameEntries (equal : Value → Value → Bool) (lefts rights : Entries) : Bool :=
  lefts.length == rights.length &&
    lefts.all fun (key, left) => (lookupWith equal key rights).any (equal left)

/-- Equality of values: numbers by size whatever their kind, texts, sequences of one kind, mappings
and objects by what they hold, callables by identity. -/
def equalWithin (heap : Heap) : Nat → Value → Value → Bool
  | 0, _, _ => false
  | depth + 1, left, right =>
    match left.numeric?, right.numeric? with
    | some left, some right => left.compare right == some .eq
    | _, _ =>
      match left, right with
      | .null, .null => true
      | .text left, .text right => left == right
      | .tuple left, .tuple right | .list left, .list right =>
        allPairs (heap.equalWithin depth) (heap.sequence left) (heap.sequence right)
      | .map left, .map right | .object left, .object right =>
        sameEntries (heap.equalWithin depth) (heap.entries left) (heap.entries right)
      | left, right => left.sameCallable right

def equal (heap : Heap) (left right : Value) : Bool := heap.equalWithin heap.depth left right

/-- Equality as the language tests it: a boolean equals no number. -/
def same (heap : Heap) (left right : Value) : Bool :=
  match left, right with
  | .bool left, .bool right => left == right
  | .bool _, _ | _, .bool _ => false
  | left, right => heap.equal left right

/-- The value that entries hold for a key. -/
def lookup (heap : Heap) (key : Value) (entries : Entries) : Option Value :=
  lookupWith heap.equal key entries

/-- The entries with a key bound to a value; a known key keeps its place. -/
def bind (heap : Heap) (key value : Value) : Entries → Entries
  | [] => [(key, value)]
  | (known, old) :: rest =>
    if heap.equal known key then (known, value) :: rest else (known, old) :: heap.bind key value rest

/-- Whether a value may be a key: all that cannot change. -/
def isKeyWithin (heap : Heap) : Nat → Value → Bool
  | 0, _ => false
  | depth + 1, value =>
    match value with
    | .list _ | .map _ | .object _ => false
    | .tuple place => (heap.sequence place).all (heap.isKeyWithin depth)
    | _ => true

def isKey (heap : Heap) (value : Value) : Bool := heap.isKeyWithin heap.depth value

end Heap

/-- The four comparisons of order. -/
inductive OrderTest where
  | less
  | lessEqual
  | greater
  | greaterEqual
  deriving DecidableEq, Repr

def OrderTest.holds (test : OrderTest) (order : Ordering) : Bool :=
  match test, order with
  | .less, .lt | .lessEqual, .lt | .lessEqual, .eq => true
  | .greater, .gt | .greaterEqual, .gt | .greaterEqual, .eq => true
  | _, _ => false

namespace Heap

/-- Order of numbers, texts and sequences of one kind; other pairs have none. Sequences are ordered
by the first elements that differ, else by length. -/
def testWithin (heap : Heap) (test : OrderTest) : Nat → Value → Value → Except Failure Bool
  | 0, _, _ => refuse .wrongType
  | depth + 1, left, right =>
    match left.numeric?, right.numeric? with
    | some left, some right => .ok ((left.compare right).any test.holds)
    | _, _ =>
      let sequences (left right : Nat) : Except Failure Bool :=
        let lefts := heap.sequence left
        let rights := heap.sequence right
        match (lefts.zip rights).find? fun pair => !heap.equal pair.1 pair.2 with
        | some (left, right) => heap.testWithin test depth left right
        | none => .ok (test.holds (compare lefts.length rights.length))
      match left, right with
      | .text left, .text right =>
        .ok (test.holds
          (if left = right then .eq else if Text.less left right then .lt else .gt))
      | .tuple left, .tuple right => sequences left right
      | .list left, .list right => sequences left right
      | _, _ => refuse .wrongType

def test (heap : Heap) (test : OrderTest) (left right : Value) : Except Failure Bool :=
  heap.testWithin test heap.depth left right

end Heap

end Formula
