import Formula.Member
import Formula.Operation.Comparison
import Formula.Value.Written

/-!
The functions of a heap are data that no operation looks into: a heap with other functions in it
gives the same answers.
-/

namespace Formula

/-- The heap with other functions in it. -/
def Heap.withFunctions (heap : Heap) (functions : Array DefinedFunction) : Heap :=
  { heap with functions := functions }

namespace Heap

variable (heap : Heap) (functions : Array DefinedFunction)

@[simp] theorem withFunctions_sequence (place : Nat) :
    (heap.withFunctions functions).sequence place = heap.sequence place := rfl

@[simp] theorem withFunctions_entries (place : Nat) :
    (heap.withFunctions functions).entries place = heap.entries place := rfl

@[simp] theorem withFunctions_functions :
    (heap.withFunctions functions).functions = functions := rfl

@[simp] theorem withFunctions_withFunctions (others : Array DefinedFunction) :
    (heap.withFunctions functions).withFunctions others = heap.withFunctions others := rfl

@[simp] theorem withFunctions_depth : (heap.withFunctions functions).depth = heap.depth := rfl

@[simp] theorem withFunctions_truth (value : Value) :
    (heap.withFunctions functions).truth value = heap.truth value := by
  cases value <;> rfl

@[simp] theorem withFunctions_equalWithin (depth : Nat) :
    (heap.withFunctions functions).equalWithin depth = heap.equalWithin depth := by
  induction depth with
  | zero => rfl
  | succ depth ih =>
      funext left right
      simp only [equalWithin, ih, withFunctions_sequence, withFunctions_entries]

@[simp] theorem withFunctions_equal : (heap.withFunctions functions).equal = heap.equal := by
  funext left right
  simp [equal]

@[simp] theorem withFunctions_same : (heap.withFunctions functions).same = heap.same := by
  funext left right
  simp [same]

@[simp] theorem withFunctions_lookup : (heap.withFunctions functions).lookup = heap.lookup := by
  funext key entries
  simp [lookup]

@[simp] theorem withFunctions_bind : (heap.withFunctions functions).bind = heap.bind := by
  funext key value entries
  induction entries with
  | nil => rfl
  | cons entry rest ih => simp [bind, ih]

@[simp] theorem withFunctions_isKeyWithin (depth : Nat) :
    (heap.withFunctions functions).isKeyWithin depth = heap.isKeyWithin depth := by
  induction depth with
  | zero => rfl
  | succ depth ih =>
      funext value
      simp only [isKeyWithin, ih, withFunctions_sequence]

@[simp] theorem withFunctions_isKey : (heap.withFunctions functions).isKey = heap.isKey := by
  funext value
  simp [isKey]

@[simp] theorem withFunctions_testWithin (test : OrderTest) (depth : Nat) :
    (heap.withFunctions functions).testWithin test depth = heap.testWithin test depth := by
  induction depth with
  | zero => rfl
  | succ depth ih =>
      funext left right
      simp only [testWithin, ih, withFunctions_sequence, withFunctions_equal]

@[simp] theorem withFunctions_test : (heap.withFunctions functions).test = heap.test := by
  funext test left right
  simp [Heap.test]

@[simp] theorem withFunctions_shownWithin (depth : Nat) :
    (heap.withFunctions functions).shownWithin depth = heap.shownWithin depth := by
  induction depth with
  | zero => rfl
  | succ depth ih =>
      funext outer value
      simp only [shownWithin, ih, withFunctions_sequence, withFunctions_entries]

@[simp] theorem withFunctions_plain :
    (heap.withFunctions functions).plain = heap.plain := by
  funext value
  simp [plain, shown]

@[simp] theorem withFunctions_spelledWithin (depth : Nat) :
    (heap.withFunctions functions).spelledWithin depth = heap.spelledWithin depth := by
  induction depth with
  | zero => rfl
  | succ depth ih =>
      funext value
      simp only [spelledWithin, ih, withFunctions_sequence, withFunctions_plain]

@[simp] theorem withFunctions_spelled :
    (heap.withFunctions functions).spelled = heap.spelled := by
  funext value
  simp [spelled]

@[simp] theorem withFunctions_member : (heap.withFunctions functions).member = heap.member := by
  funext value name
  cases value <;> simp [member]

end Heap

end Formula
