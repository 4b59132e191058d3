import Formula.Value
import Formula.Failure
import Formula.Number.Double

/-!
Numbers of two kinds, exact integers and doubles, and their arithmetic. Booleans count as integers.
-/

namespace Formula

inductive Numeric where
  | int (value : Int)
  | float (value : Float)

/-- What a refused operation fails with. -/
def refuse {α : Type} (fault : OperandFault) : Except Failure α := .error (.operand fault)

def Value.numeric? : Value → Option Numeric
  | .bool value => some (.int value.toNat)
  | .int value => some (.int value)
  | .float value => some (.float value)
  | .notANumber _ => some (.float Double.notANumber)
  | _ => none

/-- The number that a value is; other values are of the wrong type. -/
def Value.numeric (value : Value) : Except Failure Numeric :=
  match value.numeric? with
  | some number => .ok number
  | none => refuse .wrongType

namespace Numeric

def toValue : Numeric → Value
  | .int value => .int value
  | .float value => .float value

/-- The nearest double; an integer outside the range of doubles overflows. -/
def toDouble : Numeric → Except Failure Float
  | .float value => .ok value
  | .int value =>
    let nearest := Double.ofInt value
    if Double.isFinite nearest then .ok nearest else refuse .overflow

/-- Exact on integers, else on the nearest doubles. -/
def combine (onInts : Int → Int → Int) (onDoubles : Float → Float → Float)
    (left right : Numeric) : Except Failure Numeric :=
  match left, right with
  | .int left, .int right => .ok (.int (onInts left right))
  | left, right => do
    let left ← left.toDouble
    let right ← right.toDouble
    .ok (.float (onDoubles left right))

def add : Numeric → Numeric → Except Failure Numeric := combine (· + ·) (· + ·)

def subtract : Numeric → Numeric → Except Failure Numeric := combine (· - ·) (· - ·)

def multiply : Numeric → Numeric → Except Failure Numeric := combine (· * ·) (· * ·)

/-- The quotient of integers is the double nearest to the exact quotient. -/
def divide (left right : Numeric) : Except Failure Numeric :=
  match left, right with
  | .int left, .int right =>
    if right = 0 then refuse .divisionByZero
    else
      let nearest :=
        Double.ofQuotient (decide (left < 0) != decide (right < 0)) left.natAbs right.natAbs
      if Double.isFinite nearest then .ok (.float nearest) else refuse .overflow
  | left, right => do
    let left ← left.toDouble
    let right ← right.toDouble
    if right == 0.0 then refuse .divisionByZero else .ok (.float (left / right))

/-- The remainder has the sign of the divisor. -/
def remainder (left right : Numeric) : Except Failure Numeric :=
  match left, right with
  | .int left, .int right =>
    if right = 0 then refuse .divisionByZero else .ok (.int (left.fmod right))
  | left, right => do
    let left ← left.toDouble
    let right ← right.toDouble
    if right == 0.0 then refuse .divisionByZero
    else .ok (.float (Double.flooredRemainder left right))

/-- The order of an integer and a double, exact; nothing compares with what is not a number. -/
def compareIntDouble (left : Int) (right : Float) : Option Ordering :=
  match Double.kind right with
  | .notANumber => none
  | .infinite negative => some (if negative then .gt else .lt)
  | .finite value => some (value.compareInt left).swap

def compare (left right : Numeric) : Option Ordering :=
  match left, right with
  | .int left, .int right => some (Ord.compare left right)
  | .int left, .float right => compareIntDouble left right
  | .float left, .int right => (compareIntDouble right left).map Ordering.swap
  | .float left, .float right =>
    if left < right then some .lt
    else if left > right then some .gt
    else if left == right then some .eq
    else none

def isZero : Numeric → Bool
  | .int value => value == 0
  | .float value => value == 0.0

def negate : Numeric → Numeric
  | .int value => .int (-value)
  | .float value => .float (-value)

def magnitude : Numeric → Numeric
  | .int value => .int value.natAbs
  | .float value => .float value.abs

/-- Whether the nearest double is finite. -/
def isFinite (number : Numeric) : Except Failure Bool := do
  let nearest ← number.toDouble
  .ok (Double.isFinite nearest)

/-- Whether the number is finite and whole. -/
def isWhole (number : Numeric) : Except Failure Bool := do
  let finite ← number.isFinite
  match number with
  | .int _ => .ok true
  | .float value =>
    match Double.kind value with
    | .finite exact => .ok (finite && exact.isIntegral)
    | _ => .ok false

/-- The number brought to an integer in the given way; only finite numbers have one. -/
def toInteger (round : Dyadic → Int) : Numeric → Except Failure Int
  | .int value => .ok value
  | .float value =>
    match Double.kind value with
    | .finite exact => .ok (round exact)
    | .infinite _ => refuse .overflow
    | .notANumber => refuse .badValue

end Numeric

end Formula
