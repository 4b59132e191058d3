import Formula.Graph

/-!
When one node may stand for two: the test does not depend on the order, and every node passes it with
itself, unless it holds a number that is none.
-/

namespace Formula

/-- The order of two numbers turns around when they change places. -/
theorem compare_unpacked_swap (left right : Float.Model.UnpackedFloat) :
    right.compare left = (left.compare right).map Ordering.swap := by
  cases left with
  | notANumber => cases right <;> rfl
  | infinity sign =>
      cases right with
      | infinity other => cases sign <;> cases other <;> rfl
      | _ => cases sign <;> rfl
  | zero sign =>
      cases right with
      | infinity other => cases other <;> rfl
      | finite other mantissa exponent positive => cases other <;> rfl
      | _ => rfl
  | finite sign mantissa exponent positive =>
      cases right with
      | infinity other => cases other <;> rfl
      | zero other => cases sign <;> rfl
      | notANumber => rfl
      | finite other mantissa' exponent' positive' =>
          have exponents : compare exponent' exponent = (compare exponent exponent').swap :=
            Std.OrientedCmp.eq_swap
          have mantissas : compare mantissa' mantissa = (compare mantissa mantissa').swap :=
            Std.OrientedCmp.eq_swap
          cases sign <;> cases other <;>
            dsimp only [Float.Model.UnpackedFloat.compare] <;>
            simp [exponents, mantissas, Ordering.swap_then]

theorem compare_unpacked_self {number : Float.Model.UnpackedFloat} (proper : number ≠ .notANumber) :
    number.compare number = some .eq := by
  cases number with
  | notANumber => exact absurd rfl proper
  | infinity sign => cases sign <;> rfl
  | zero sign => rfl
  | finite sign mantissa exponent positive =>
      cases sign <;> dsimp only [Float.Model.UnpackedFloat.compare] <;> simp

namespace Numeric

/-- Doubles are compared as their exact values are. -/
theorem compare_float (left right : Float) :
    compare (.float left) (.float right) = left.toModel.unpack.compare right.toModel.unpack := by
  have less : left < right ↔ left.toModel.unpack.compare right.toModel.unpack = some .lt :=
    decide_eq_true_iff.trans beq_iff_eq
  have greater : left > right ↔ left.toModel.unpack.compare right.toModel.unpack = some .gt := by
    have turned : left > right ↔ right.toModel.unpack.compare left.toModel.unpack = some .lt :=
      decide_eq_true_iff.trans beq_iff_eq
    rw [turned, compare_unpacked_swap]
    cases left.toModel.unpack.compare right.toModel.unpack with
    | none => simp
    | some order => cases order <;> simp
  have equal : (left == right) = true ↔
      left.toModel.unpack.compare right.toModel.unpack = some .eq := by
    change (left.toModel.unpack.compare right.toModel.unpack == some .eq) = true ↔ _
    exact beq_iff_eq
  unfold compare
  simp only [less, greater, equal]
  cases left.toModel.unpack.compare right.toModel.unpack with
  | none => rfl
  | some order => cases order <;> rfl

theorem compare_swap (left right : Numeric) :
    right.compare left = (left.compare right).map Ordering.swap := by
  cases left with
  | int left =>
      cases right with
      | int right =>
          change some (Ord.compare right left) = some (Ord.compare left right).swap
          exact congrArg some Std.OrientedCmp.eq_swap
      | float right => rfl
  | float left =>
      cases right with
      | int right =>
          change compareIntDouble right left =
            ((compareIntDouble right left).map Ordering.swap).map Ordering.swap
          cases compareIntDouble right left with
          | none => rfl
          | some order => cases order <;> rfl
      | float right =>
          rw [compare_float, compare_float]
          exact compare_unpacked_swap _ _

/-- Whether numbers are of one size does not depend on their order. -/
theorem compare_eq_comm (left right : Numeric) :
    (left.compare right == some .eq) = (right.compare left == some .eq) := by
  rw [compare_swap left right]
  cases left.compare right with
  | none => rfl
  | some order => cases order <;> rfl

end Numeric

namespace Scalar

def isNotANumber : Scalar → Bool
  | .float number => number.isNaN
  | .notANumber _ => true
  | _ => false

theorem equals_comm (left right : Scalar) : left.equals right = right.equals left := by
  cases left with
  | notANumber serial =>
      cases right with
      | notANumber other => exact Bool.beq_comm
      | _ => exact Numeric.compare_eq_comm _ _
  | _ => cases right <;> exact Numeric.compare_eq_comm _ _

theorem sameKind_comm (left right : Scalar) : left.sameKind right = right.sameKind left := by
  cases left <;> cases right <;> rfl

theorem equals_self {scalar : Scalar} (proper : scalar.isNotANumber = false) :
    scalar.equals scalar = true := by
  cases scalar with
  | bool value =>
      change (some (Ord.compare value.toInt value.toInt) == some Ordering.eq) = true
      simp
  | int value =>
      change (some (Ord.compare value value) == some Ordering.eq) = true
      simp
  | float value =>
      have known : value.toModel.unpack ≠ .notANumber := by
        intro same
        have isNaN : value.toModel.unpack.isNaN = false := proper
        rw [same] at isNaN
        cases isNaN
      change (Numeric.compare (.float value) (.float value) == some .eq) = true
      rw [Numeric.compare_float, compare_unpacked_self known]
      rfl
  | notANumber serial => cases proper

end Scalar

namespace Constant

mutual

/-- Whether a number that is none stands somewhere in a constant. -/
def holdsNotANumber : Constant → Bool
  | .scalar value => value.isNotANumber
  | .list items => anyNotANumber items
  | .missing | .other => false

def anyNotANumber : List Constant → Bool
  | [] => false
  | item :: rest => item.holdsNotANumber || anyNotANumber rest

end

mutual

theorem equals_comm (left right : Constant) : left.equals right = right.equals left := by
  cases left with
  | scalar left =>
      cases right with
      | scalar right => exact Scalar.equals_comm left right
      | _ => rfl
  | list left =>
      cases right with
      | list right => exact allEqual_comm left right
      | _ => rfl
  | _ => cases right <;> rfl

theorem allEqual_comm (lefts rights : List Constant) :
    allEqual lefts rights = allEqual rights lefts := by
  cases lefts with
  | nil => cases rights <;> rfl
  | cons left lefts =>
      cases rights with
      | nil => rfl
      | cons right rights =>
          rw [allEqual, allEqual, equals_comm left right, allEqual_comm lefts rights]

end

mutual

theorem equals_self (constant : Constant) (proper : constant.holdsNotANumber = false) :
    constant.equals constant = true := by
  cases constant with
  | scalar value => exact Scalar.equals_self proper
  | list items => exact allEqual_self items proper
  | missing => rfl
  | other => rfl

theorem allEqual_self (items : List Constant) (proper : anyNotANumber items = false) :
    allEqual items items = true := by
  cases items with
  | nil => rfl
  | cons item rest =>
      simp only [anyNotANumber, Bool.or_eq_false_iff] at proper
      rw [allEqual, equals_self item proper.1, allEqual_self rest proper.2]
      rfl

end

theorem merges_comm (left right : Constant) : left.merges right = right.merges left := by
  cases left with
  | scalar left =>
      cases right with
      | scalar right =>
          rw [merges, merges, Scalar.sameKind_comm left right, Scalar.equals_comm left right]
      | _ => rfl
  | _ => cases right <;> exact equals_comm _ _

theorem merges_self {constant : Constant} (proper : constant.holdsNotANumber = false) :
    constant.merges constant = true := by
  cases constant with
  | scalar value =>
      have kind : value.sameKind value = true := by cases value <;> rfl
      rw [merges, kind, Scalar.equals_self proper]
      rfl
  | _ => exact equals_self _ proper

end Constant

namespace NodeOperation

/-- Whether an operation is a constant that holds a number that is none. -/
def holdsNotANumber : NodeOperation → Bool
  | .constant value => value.holdsNotANumber
  | _ => false

theorem merges_comm (left right : NodeOperation) : left.merges right = right.merges left := by
  cases left with
  | constant left =>
      cases right with
      | constant right => exact Constant.merges_comm left right
      | _ => rfl
  | _ => cases right <;> first | rfl | exact Bool.beq_comm

theorem merges_self {operation : NodeOperation} (proper : operation.holdsNotANumber = false) :
    operation.merges operation = true := by
  cases operation with
  | constant value => exact Constant.merges_self proper
  | _ => simp [merges]

end NodeOperation

namespace Node

theorem merges_comm (left right : Node) : left.merges right = right.merges left := by
  rw [merges, merges, NodeOperation.merges_comm, Bool.beq_comm]

theorem merges_self {node : Node} (proper : node.operation.holdsNotANumber = false) :
    node.merges node = true := by
  rw [merges, NodeOperation.merges_self proper, beq_self_eq_true]
  rfl

end Node

end Formula
