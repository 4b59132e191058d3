import Formula.Text
import Formula.Operation.Numeric

/-!
Graphs of array operations. A node is known by its position, and its inputs are the positions of
other nodes.
-/

namespace Formula

inductive Scalar where
  | bool (value : Bool)
  | int (value : Int)
  | float (value : Float)
  /-- A number that is none, known by a serial number. -/
  | notANumber (serial : Nat)
  deriving Inhabited

namespace Scalar

def numeric : Scalar → Numeric
  | .bool value => .int value.toInt
  | .int value => .int value
  | .float value => .float value
  | .notANumber _ => .float Double.notANumber

/-- Whether two scalars are numbers of one size, whatever their kind, or one and the same that is no
number. -/
def equals : Scalar → Scalar → Bool
  | .notANumber left, .notANumber right => left == right
  | left, right => left.numeric.compare right.numeric == some .eq

def sameKind : Scalar → Scalar → Bool
  | .bool _, .bool _ | .int _, .int _ | .float _, .float _ | .notANumber _, .notANumber _ => true
  | _, _ => false

end Scalar

/-- What a constant node or an argument holds. -/
inductive Constant where
  | scalar (value : Scalar)
  | list (items : List Constant)
  /-- Nothing at all. -/
  | missing
  /-- Something that is no number and no list. -/
  | other
  deriving Inhabited

namespace Constant

mutual

/-- Whether two constants inside a list are equal: numbers by size. -/
def equals : Constant → Constant → Bool
  | .scalar left, .scalar right => left.equals right
  | .list left, .list right => allEqual left right
  | .missing, .missing | .other, .other => true
  | _, _ => false

def allEqual : List Constant → List Constant → Bool
  | [], [] => true
  | left :: lefts, right :: rights => equals left right && allEqual lefts rights
  | _, _ => false

end

/-- Whether one node may hold both constants: equal ones of one kind. Within lists the kind does not
count. -/
def merges : Constant → Constant → Bool
  | .scalar left, .scalar right => left.sameKind right && left.equals right
  | left, right => left.equals right

end Constant

/-- What a node computes from its inputs. -/
inductive NodeOperation where
  | argument (name : Text)
  | constant (value : Constant)
  | unary (symbol : Text)
  | binary (symbol : Text)
  | call (function : Text)
  /-- One array of all inputs. -/
  | vector
  /-- The second input where the first holds, else the third. -/
  | choose
  /-- An operation that no array function carries out. -/
  | unknown (title : Text)
  deriving Inhabited

namespace NodeOperation

/-- The name of the operation. -/
def title : NodeOperation → Text
  | .argument _ => Text.ofString "arg"
  | .constant _ => Text.ofString "const"
  | .unary symbol => Text.ofString "unary:" ++ symbol
  | .binary symbol => Text.ofString "binary:" ++ symbol
  | .call function => Text.ofString "call:" ++ function
  | .vector => Text.ofString "vector"
  | .choose => Text.ofString "where"
  | .unknown title => title

/-- The text before the first colon, and the text after it. -/
def splitTitle (title : Text) : Text × Text :=
  (title.takeWhile (· ≠ ':'.toNat), (title.dropWhile (· ≠ ':'.toNat)).drop 1)

/-- The operation of a name, with the constant or the argument's name that belongs to it. -/
def ofTitle (title : Text) (value : Constant) (name : Text) : NodeOperation :=
  let (kind, symbol) := splitTitle title
  if title = Text.ofString "arg" then .argument name
  else if title = Text.ofString "const" then .constant value
  else if title = Text.ofString "vector" then .vector
  else if title = Text.ofString "where" then .choose
  else if kind = Text.ofString "unary" then .unary symbol
  else if kind = Text.ofString "binary" then .binary symbol
  else if kind = Text.ofString "call" then .call symbol
  else .unknown title

/-- Whether two operations give one value for the same inputs. -/
def merges : NodeOperation → NodeOperation → Bool
  | .argument left, .argument right => left == right
  | .constant left, .constant right => left.merges right
  | .unary left, .unary right => left == right
  | .binary left, .binary right => left == right
  | .call left, .call right => left == right
  | .vector, .vector => true
  | .choose, .choose => true
  | .unknown left, .unknown right => left == right
  | _, _ => false

end NodeOperation

structure Node where
  operation : NodeOperation
  inputs : List Nat := []
  deriving Inhabited

def Node.merges (left right : Node) : Bool :=
  left.inputs == right.inputs && left.operation.merges right.operation

/-- Nodes in an order in which they can be computed, the one whose value is asked for, and the names
of the arguments. -/
structure Graph where
  nodes : Array Node
  output : Nat
  arguments : List Text
  deriving Inhabited

end Formula
