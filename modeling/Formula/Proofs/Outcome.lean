import Formula.Proofs.Refinement

/-!
Programs that leave the state as it is, whether they end in a value or in a failure: what a built-in function comes
to is what the operator or the call ends in.
-/

namespace Formula

open Machine

namespace Eval

variable {α β : Type} {state : State}

/-- A computation that leaves the state as it is and ends in a result or a failure. -/
def Concludes (state : State) (computation : Eval α) (outcome : Except Failure α) : Prop :=
  computation state = some (outcome, state)

theorem concludes_bind {first : Eval α} {next : α → Eval β} {between : α} {outcome : Except Failure β}
    (before : Reads False state first between) (after : Concludes state (next between) outcome) :
    Concludes state (first >>= next) outcome := by
  have came : first state = some (.ok between, state) := before.resolve_right fun spent => spent.1
  rw [Concludes, bind_apply, came]
  exact after

theorem concludes_map {first : Eval α} {outcome : Except Failure α} (function : α → β)
    (came : Concludes state first outcome) :
    Concludes state (do return function (← first)) (outcome.map function) := by
  rw [Concludes] at *
  rw [bind_apply, came]
  cases outcome <;> rfl

theorem concludes_act {action : Action α} {outcome : Except Failure α}
    (always : ∀ heap, action heap = outcome.map (·, heap)) : Concludes state (act action) outcome := by
  rw [Concludes, act_apply, always]
  cases outcome <;> rfl

end Eval

section

variable {frame : Frame} {state : State} {answers : Perform} {program : Program} {values : List Value}
  {outcome : Except Failure Value}

theorem concludes_call {builtin : Builtin} (works : Works False answers)
    (direct : (Value.builtin builtin).isDirect = true)
    (applies : ∀ heap, builtin.apply values heap = outcome.map (·, heap)) :
    Eval.Concludes state (answers (.call (.builtin builtin) values)) outcome := by
  have called := (works builtin values state direct).resolve_right fun spent => spent.1
  rw [Eval.Concludes, called]
  exact Eval.concludes_act applies

/-- A program ends as its last instruction does, on what those before it pushed. -/
theorem Pushes.concludes {instruction : Instruction} (operands : Pushes frame state program values)
    (plain : ∀ value, outcome = .ok value → unsigned value = value)
    (last : ∀ depth, Eval.Concludes state
      (step (perform (depth + 1)) frame instruction (values.reverse.map .value ++ []))
      (outcome.map fun value => [.value value])) :
    Evaluates frame.dialect (program ++ [instruction]) frame.scope state outcome state := by
  obtain ⟨least, operands⟩ := operands
  refine ⟨least + 2, ?_⟩
  have pushed : Eval.Concludes state (steps (perform (least + 1)) frame (program ++ [instruction]) [])
      (outcome.map fun value => [.value value]) := by
    rw [steps_append]
    refine Eval.concludes_bind (operands (least + 1) (by omega) []) ?_
    have single (stack : Stack) : steps (perform (least + 1)) frame [instruction] stack =
        step (perform (least + 1)) frame instruction stack := bind_pure _
    rw [single]
    exact last least
  change run (perform (least + 1)) frame (program ++ [instruction]) state = _
  rw [run, Eval.bind_apply, pushed]
  cases outcome with
  | error failure => rfl
  | ok value =>
      have ends : Eval.Reads False state
          (do return unsigned (← resolve (perform (least + 1)) frame (.value value))) (unsigned value) :=
        Eval.reads_bind (Eval.reads_pure value) (Eval.reads_pure _)
      rw [plain value rfl] at ends
      exact ends.resolve_right fun spent => spent.1

/-- A built-in function behind an operator gives what it gives for the operand. -/
theorem evaluates_unary {symbol : Text} (builtin : Builtin) {value : Value}
    (operand : Pushes frame state program [value])
    (held : (state.dialect frame.dialect).unary.get? symbol = some (.builtin builtin))
    (direct : (Value.builtin builtin).isDirect = true)
    (applies : ∀ heap, builtin.apply [value] heap = outcome.map (·, heap))
    (plain : ∀ value, outcome = .ok value → unsigned value = value) :
    Evaluates frame.dialect (program ++ [.unary symbol]) frame.scope state outcome state := by
  refine operand.concludes plain fun depth => ?_
  refine Eval.concludes_bind (Eval.reads_pure (Operand.value value, [])) ?_
  refine Eval.concludes_bind (reads_operator held) ?_
  refine Eval.concludes_bind (Eval.reads_pure value) ?_
  exact Eval.concludes_map _ (concludes_call (works_perform_succ depth) direct applies)

/-- A built-in function that is called by its name on data gives what it gives for the arguments. -/
theorem evaluates_call {name : Text} (builtin : Builtin) (proper : Text.isReserved name = false)
    (arguments : Pushes frame state program values) (data : ∀ value ∈ values, value.isCallable = false)
    (held : (state.dialect frame.dialect).functions.get? name = some (.builtin builtin))
    (direct : (Value.builtin builtin).isDirect = true)
    (applies : ∀ heap, builtin.apply values heap = outcome.map (·, heap))
    (plain : ∀ value, outcome = .ok value → unsigned value = value) :
    Evaluates frame.dialect ([.name name] ++ program ++ [.call values.length]) frame.scope state outcome state := by
  have operands := (Pushes.name (lookup_function proper held)).append arguments
  refine operands.concludes plain fun depth => ?_
  have taken : Eval.Reads False state (popResolved (perform (depth + 1)) frame values.length
      (([Value.builtin builtin] ++ values).reverse.map .value ++ []) []) (values, [.value (.builtin builtin)]) := by
    have resolved : Eval.Reads False state (popResolved (perform (depth + 1)) frame values.reverse.length
        (values.reverse.map .value ++ [.value (.builtin builtin)]) [])
        (values.reverse.reverse ++ [], [.value (.builtin builtin)]) := reads_popResolved ..
    simpa using resolved
  refine Eval.concludes_bind taken ?_
  refine Eval.concludes_bind (Eval.reads_pure (Operand.value (.builtin builtin), [])) ?_
  refine Eval.concludes_bind (Eval.reads_pure (Value.builtin builtin)) (Eval.concludes_map _ ?_)
  have admitted : callTrusted (perform (depth + 1)) frame (.builtin builtin) values state =
      perform (depth + 1) (.call (.builtin builtin) values) state :=
    callTrusted_admitted rfl (trusts_held held) fun value member callable =>
      absurd callable (by rw [data value member]; decide)
  rw [Eval.Concludes, admitted]
  exact concludes_call (works_perform_succ depth) direct applies

end

end Formula
