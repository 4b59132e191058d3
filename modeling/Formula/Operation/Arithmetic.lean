import Formula.Operation.Action
import Formula.Operation.Comparison
import Formula.Operation.Mathematics
import Formula.Number.Reading
import Formula.Number.Hypotenuse

/-!
Arithmetic on values: numbers, and the sums and multiples of texts and sequences.
-/

namespace Formula

namespace Arithmetic

/-- A function of one number. -/
def unary (function : Numeric → Except Failure Numeric) (operand : Value) :
    Except Failure Value := do
  let operand ← operand.numeric
  let result ← function operand
  return result.toValue

/-- A number brought to an integer; what is no number stays as it is. -/
def whole (function : Numeric → Except Failure Numeric) (operand : Value) : Except Failure Value :=
  if operand.isNotANumber then .ok operand else unary function operand

/-- A value of the gamma function. -/
def gamma (function : Numeric → Except Failure Numeric) (operand : Value) :
    Except Failure Value := do
  let result ← unary function operand
  return if result.isNotANumber then .standardNotANumber else result

/-- A function of two numbers. -/
def binary (function : Numeric → Numeric → Except Failure Numeric) (left right : Value) :
    Except Failure Value := do
  let left ← left.numeric
  let right ← right.numeric
  let result ← function left right
  return result.toValue

/-- The sum of numbers; texts and sequences of one kind are joined. -/
def add (left right : Value) : Action Value := do
  match left, right with
  | .text left, .text right => return .text (left ++ right)
  | .list left, .list right => Action.newList ((← Action.items left) ++ (← Action.items right))
  | .tuple left, .tuple right => Action.newTuple ((← Action.items left) ++ (← Action.items right))
  | left, right => binary Numeric.add left right

/-- A bound on the count of repetitions, and on the length of a text. -/
def countLimit : Nat := twoTo 63

/-- The items of a sequence as often as an integer says; never, if it is negative. -/
def repetition {α : Type} (items : List α) (count : Int) : Except Failure (List α) :=
  if count < -countLimit ∨ count ≥ countLimit ∨ items.length * count.toNat ≥ countLimit then
    refuse .overflow
  else .ok (List.replicate (if items.isEmpty then 0 else count.toNat) items).flatten

/-- A text or sequence several times over. -/
def repeated (items : Value) (count : Numeric) : Action Value := do
  match items, count with
  | .text content, .int count => return .text (← repetition content count)
  | .list place, .int count => Action.newList (← repetition (← Action.items place) count)
  | .tuple place, .int count => Action.newTuple (← repetition (← Action.items place) count)
  | _, _ => Action.fail .wrongType

/-- The product of numbers; a text or sequence is repeated. -/
def multiply (left right : Value) : Action Value :=
  match left.numeric?, right.numeric? with
  | some count, none => repeated right count
  | none, some count => repeated left count
  | _, _ => binary Numeric.multiply left right

/-- A number as it is; the number that a text denotes, where blank text denotes zero. -/
def positive : Value → Except Failure Value
  | .text content =>
    if content.all Text.isBlank then .ok (.int 0)
    else .ok (((Reading.double? content).map .float).getD .standardNotANumber)
  | operand => if operand.isNotANumber then .ok operand else unary .ok operand

/-- Minus one, one, or the operand itself if it is neither negative nor positive. -/
def sign (operand : Value) : Except Failure Value := do
  let number ← operand.numeric
  match number.compare (.int 0) with
  | some .gt => return .int 1
  | some .lt => return .int (-1)
  | _ => return operand

/-- A logarithm in a fixed base. -/
def fixedLogarithm (log : Float → Float) (operand : Value) : Except Failure Value := do
  let operand ← operand.numeric
  let result ← Mathematics.logarithm log operand
  return .float result

/-- The logarithm in a given base. -/
def logarithm (operand base : Value) : Except Failure Value := do
  let operand ← operand.numeric
  let above ← Mathematics.logarithm Float.log operand
  let base ← base.numeric
  let below ← Mathematics.logarithm Float.log base
  if below == 0.0 then refuse .divisionByZero else return .float (above / below)

/-- The double that a value denotes, as an operand of a function of doubles. -/
def double (operand : Value) : Except Failure Float := operand.numeric.bind Numeric.toDouble

/-- A power of doubles. -/
def power (base exponent : Value) : Except Failure Value := do
  let base ← double base
  let exponent ← double exponent
  let result ← Mathematics.power base exponent
  return .float result

/-- The angle of a point, from its two coordinates. -/
def angle (ordinate abscissa : Value) : Except Failure Value := do
  let ordinate ← double ordinate
  let abscissa ← double abscissa
  return .float (Float.atan2 ordinate abscissa)

def hypotenuse (operands : List Value) : Except Failure Value := do
  let numbers ← operands.mapM double
  return .float (Double.hypotenuse numbers)

/-- The sum of numbers onto a first one. -/
def sumFrom : Numeric → List Value → Except Failure Numeric
  | total, [] => .ok total
  | total, item :: rest => do
    let item ← item.numeric
    let total ← total.add item
    sumFrom total rest

/-- The sum of the numbers of a sequence. -/
def sum (heap : Heap) (operand : Value) : Except Failure Value :=
  match operand.sequence? with
  | none => .error (.traversal .sumOfOther)
  | some place => (sumFrom (.int 0) (heap.sequence place)).map Numeric.toValue

/-- The double that a value denotes, also if it is written as text. -/
def readDouble : Value → Except Failure Float
  | .text content =>
    match Reading.double? content with
    | some number => .ok number
    | none => refuse .badValue
  | operand => double operand

/-- A number with its decimal point moved: the shortest digits stay the same. -/
def shiftPoint (number : Float) (places : Int) : Except Failure Float :=
  match Double.kind number with
  | .finite exact =>
    let digits := Decimal.shortest exact
    .ok ({ digits with exponent := digits.exponent + places }.toDouble (Double.isNegative number))
  | _ => refuse .badValue

/-- A value rounded to some decimal places, or before the point if their count is negative. -/
def roundPlaces (operand : Value) (places : Int) : Except Failure Value := do
  let number ← readDouble operand
  let shifted ← shiftPoint number places
  let rounded ← Mathematics.roundHalfUp (.float shifted)
  let nearest ← rounded.toDouble
  let result ← shiftPoint nearest (-places)
  return .float result

/-- Whether a count of places asks for plain rounding. -/
def asksWhole : Value → Bool
  | .null => true
  | places => places.numeric?.any Numeric.isZero

/-- A value rounded to some decimal places. A count that is not whole gives no number. -/
def roundTo (operand places : Value) : Except Failure Value :=
  if asksWhole places then whole Mathematics.roundHalfUp operand
  else if operand.isNotANumber then .ok .standardNotANumber
  else do
    let places ← places.numeric
    if ← places.isWhole then
      let places ← places.toInteger Dyadic.truncate
      roundPlaces operand places
    else return .standardNotANumber

end Arithmetic

end Formula
