import Formula.Operation.Arithmetic
import Formula.Operation.Sequence
import Formula.Number.Elementary

/-!
What each built-in function gives for its arguments. The functions that call others, and the random
number, belong to the machine.
-/

namespace Formula

namespace Builtin

/-- The result of a function; a wrong number of arguments is refused. -/
def apply (function : Builtin) (arguments : List Value) : Action Value := do
  let heap ← get
  match function, arguments with
  | .sin, [x] => Arithmetic.unary (Mathematics.bounded Float.sin) x
  | .cos, [x] => Arithmetic.unary (Mathematics.bounded Float.cos) x
  | .tan, [x] => Arithmetic.unary (Mathematics.bounded Float.tan) x
  | .asin, [x] => Arithmetic.unary (Mathematics.bounded Float.asin) x
  | .acos, [x] => Arithmetic.unary (Mathematics.bounded Float.acos) x
  | .atan, [x] => Arithmetic.unary (Mathematics.bounded Float.atan) x
  | .sinh, [x] => Arithmetic.unary (Mathematics.growing Float.sinh) x
  | .cosh, [x] => Arithmetic.unary (Mathematics.growing Float.cosh) x
  | .tanh, [x] => Arithmetic.unary (Mathematics.bounded Float.tanh) x
  | .asinh, [x] => Arithmetic.unary (Mathematics.bounded Float.asinh) x
  | .acosh, [x] => Arithmetic.unary (Mathematics.bounded Float.acosh) x
  | .atanh, [x] => Arithmetic.unary (Mathematics.bounded Float.atanh) x
  | .sqrt, [x] => Arithmetic.unary (Mathematics.bounded Float.sqrt) x
  | .cbrt, [x] => Arithmetic.unary Mathematics.cubeRoot x
  | .log, [x] => Arithmetic.fixedLogarithm Float.log x
  | .log, [x, base] => Arithmetic.logarithm x base
  | .log2, [x] => Arithmetic.fixedLogarithm Float.log2 x
  | .log10, [x] => Arithmetic.fixedLogarithm Float.log10 x
  | .expm1, [x] => Arithmetic.unary (Mathematics.growing Elementary.expm1) x
  | .log1p, [x] => Arithmetic.unary (Mathematics.bounded Elementary.log1p) x
  | .exp, [x] => Arithmetic.unary (Mathematics.growing Float.exp) x
  | .abs, [x] => Arithmetic.unary (.ok ·.magnitude) x
  | .ceil, [x] => Arithmetic.unary (fun number => (number.toInteger Dyadic.ceiling).map .int) x
  | .floor, [x] => Arithmetic.unary (fun number => (number.toInteger Dyadic.floor).map .int) x
  | .round, [x] => Arithmetic.whole Mathematics.roundHalfUp x
  | .trunc, [x] => Arithmetic.whole Mathematics.truncate x
  | .negate, [x] => Arithmetic.unary (.ok ·.negate) x
  | .positive, [x] => Arithmetic.positive x
  | .not, [x] => return .bool (!heap.truth x)
  | .length, [x] => return .int (Sequence.length heap x)
  | .factorial, [x] =>
    Arithmetic.gamma (fun number => (number.add (.int 1)).bind Mathematics.gamma) x
  | .gamma, [x] => Arithmetic.gamma Mathematics.gamma x
  | .sign, [x] => Arithmetic.sign x
  | .add, [x, y] => Arithmetic.add x y
  | .subtract, [x, y] => Arithmetic.binary Numeric.subtract x y
  | .multiply, [x, y] => Arithmetic.multiply x y
  | .divide, [x, y] => Arithmetic.binary Numeric.divide x y
  | .remainder, [x, y] => Arithmetic.binary Numeric.remainder x y
  | .pow, [x, y] => Arithmetic.power x y
  | .exactPower, [x, y] => Arithmetic.binary Mathematics.exactPower x y
  | .atan2, [x, y] => Arithmetic.angle x y
  | .hypot, numbers => Arithmetic.hypotenuse numbers
  | .concat, [x, y] => Sequence.concat x y
  | .equal, [x, y] => return .bool (heap.same x y)
  | .notEqual, [x, y] => return .bool (!heap.same x y)
  | .greater, [x, y] => return .bool (← heap.test .greater x y)
  | .less, [x, y] => return .bool (← heap.test .less x y)
  | .greaterEqual, [x, y] => return .bool (← heap.test .greaterEqual x y)
  | .lessEqual, [x, y] => return .bool (← heap.test .lessEqual x y)
  | .conjunction, [x, y] => return .bool (heap.truth x && heap.truth y)
  | .disjunction, [x, y] => return .bool (heap.truth x || heap.truth y)
  | .contains, [x, collection] => return .bool (← Sequence.contains heap x collection)
  | .indexOf, [x, collection] => return .int (← Sequence.indexOf heap x collection)
  | .join, [separator, items] => return .text (← Sequence.join heap separator items)
  | .index, [collection, position] => Sequence.index heap collection position
  | .sum, [items] => Arithmetic.sum heap items
  | .min, values => Sequence.extremum heap .less Double.infinity values
  | .max, values => Sequence.extremum heap .greater (-Double.infinity) values
  | .roundTo, [x] => Arithmetic.roundTo x .null
  | .roundTo, [x, places] => Arithmetic.roundTo x places
  | .choose, [condition, yes, no] => return if heap.truth condition then yes else no
  | .assign, [_, value] => return value
  | .assign, [_, value, .null] => return value
  | .assign, [name, value, scope] => Sequence.assign scope name value
  | .assignMember, [object, name, value] => Sequence.assign object name value
  | .toText, [x] => return .text (heap.spelled x)
  | _, _ => Action.fail .wrongType

end Builtin

end Formula
