import Formula.Machine
import Formula.Proofs.Evaluation
import Formula.Proofs.Functions

/-!
What defining a function does to the state, and the names under which functions are registered.
-/

namespace Formula

/-- The name under which the next function of an expression joins its dialect. -/
def registeredName (serial : Nat) : Text := Text.ofString "lambda_" ++ Text.ofNat serial

namespace State

/-- The state after a count of one more definition. -/
def count (state : State) : State := { state with definitions := state.definitions + 1 }

/-- The state in which a function joins the heap and the functions of its dialect, and its name is
bound. -/
def define (state : State) (scope : Nat) (function : DefinedFunction) : State :=
  let place := state.heap.functions.size
  let added := { state.count with heap := (state.heap.addFunction function).2 }
  (added.register function.dialect (registeredName state.definitions) (.defined place)).bind scope
    (.text function.name) (.defined place)

theorem dialect_register (state : State) (changed : Nat) (name : Text) (function : Value)
    (place : Nat) :
    (state.register changed name function).dialect place =
      if place = changed ∧ changed < state.dialects.size then
        { state.dialect changed with
          functions := (state.dialect changed).functions.insert name function }
      else state.dialect place := by
  simp only [register, dialect, Array.getD_eq_getD_getElem?, Array.getElem?_setIfInBounds]
  by_cases same : changed = place
  · subst same
    by_cases bound : changed < state.dialects.size
    · simp [bound]
    · simp [bound]
  · simp [same, Ne.symm same]

theorem define_dialect (state : State) (scope : Nat) (function : DefinedFunction) (place : Nat) :
    (state.define scope function).dialect place =
      if place = function.dialect ∧ function.dialect < state.dialects.size then
        { state.dialect function.dialect with
          functions := (state.dialect function.dialect).functions.insert
            (registeredName state.definitions) (.defined state.heap.functions.size) }
      else state.dialect place :=
  dialect_register ..

theorem define_heap (state : State) (scope : Nat) (function : DefinedFunction) :
    (state.define scope function).heap =
      (state.heap.setEntries scope (state.heap.bind (.text function.name)
        (.defined state.heap.functions.size) (state.heap.entries scope))).withFunctions
          (state.heap.functions.push function) := by
  change (state.heap.withFunctions (state.heap.functions.push function)).setEntries scope
    ((state.heap.withFunctions (state.heap.functions.push function)).bind _ _ _) = _
  rw [Heap.withFunctions_bind]
  rfl

@[simp] theorem define_functions (state : State) (scope : Nat) (function : DefinedFunction) :
    (state.define scope function).heap.functions = state.heap.functions.push function := rfl

@[simp] theorem define_definitions (state : State) (scope : Nat) (function : DefinedFunction) :
    (state.define scope function).definitions = state.definitions + 1 := rfl

theorem define_function_new (state : State) (scope : Nat) (function : DefinedFunction) :
    (state.define scope function).heap.function? state.heap.functions.size = some function := by
  simp [Heap.function?]

theorem define_function? {state : State} {place : Nat} {known : DefinedFunction}
    (found : state.heap.function? place = some known) (scope : Nat) (function : DefinedFunction) :
    (state.define scope function).heap.function? place = some known := by
  simp only [Heap.function?] at found
  have bound := (Array.getElem?_eq_some_iff.mp found).1
  simp only [Heap.function?, define_functions, Array.getElem?_push_lt bound]
  exact found ▸ (Array.getElem?_eq_getElem bound).symm

/-- A function of the state after a definition is the new one or one of before. -/
theorem function?_of_define {state : State} {scope place : Nat} {function known : DefinedFunction}
    (found : (state.define scope function).heap.function? place = some known) :
    known = function ∨ state.heap.function? place = some known := by
  simp only [Heap.function?, define_functions, Array.getElem?_push] at found
  split at found
  · exact .inl (Option.some.inj found).symm
  · exact .inr found

end State

namespace Machine

theorem define_apply (frame : Frame) (word : Text) (parameters : List Operand) (body : Operand)
    (state : State) :
    define frame (.text word) parameters body state =
      some (if parameters.all define.isText = true then
          .ok (.defined state.heap.functions.size)
        else .error (.operand .wrongType),
        state.define frame.scope ⟨word, parameters.map define.valueOf, body, frame.dialect,
          frame.scope⟩) := by
  unfold define
  simp only [Eval.get_bind_apply, Eval.set_bind_apply]
  split <;> rfl

theorem define_nameless (frame : Frame) {name : Value} (nameless : ∀ word, name ≠ .text word)
    (parameters : List Operand) (body : Operand) (state : State) :
    define frame name parameters body state =
      some (.error (.operand .wrongType), state.count) := by
  cases name with
  | text word => exact absurd rfl (nameless word)
  | _ => rfl

end Machine

end Formula
