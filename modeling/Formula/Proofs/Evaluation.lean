import Formula.State

/-!
What computations on the state come to, one step at a time.
-/

namespace Formula

/-- A sequence of two computations on a state that outlives a failure. -/
theorem bind_run {α β σ : Type} (first : ExceptT Failure (StateT σ Option) α)
    (next : α → ExceptT Failure (StateT σ Option) β) (state : σ) :
    (first >>= next) state =
      match first state with
      | none => none
      | some (.ok value, after) => next value after
      | some (.error failure, after) => some (.error failure, after) := by
  change (ExceptT.bind first next) state = _
  simp only [ExceptT.bind, ExceptT.mk]
  change (StateT.bind (first : StateT σ Option (Except Failure α)) _) state = _
  simp only [StateT.bind]
  rcases first state with _ | ⟨result, after⟩
  · rfl
  · cases result <;> rfl

namespace Eval

variable {α β : Type}

theorem bind_apply (first : Eval α) (next : α → Eval β) (state : State) :
    (first >>= next) state =
      match first state with
      | none => none
      | some (.ok value, after) => next value after
      | some (.error failure, after) => some (.error failure, after) := by
  rw [bind_run]
  rcases first state with _ | ⟨_ | value, after⟩ <;> rfl

@[simp] theorem pure_apply (value : α) (state : State) :
    (pure value : Eval α) state = some (.ok value, state) := rfl

@[simp] theorem get_apply (state : State) :
    (get : Eval State) state = some (.ok state, state) := rfl

@[simp] theorem set_apply (after state : State) :
    (set after : Eval Unit) state = some (.ok (), after) := rfl

@[simp] theorem throw_apply (failure : Failure) (state : State) :
    (throw failure : Eval α) state = some (.error failure, state) := rfl

@[simp] theorem refuse_apply (fault : OperandFault) (state : State) :
    (refuse fault : Eval α) state = some (.error (.operand fault), state) := rfl

@[simp] theorem outOfFuel_apply (state : State) : (outOfFuel : Eval α) state = none := rfl

@[simp] theorem get_bind_apply (next : State → Eval β) (state : State) :
    ((get : Eval State) >>= next) state = next state state := by
  simp [bind_apply]

@[simp] theorem set_bind_apply (after : State) (next : Unit → Eval β) (state : State) :
    ((set after : Eval Unit) >>= next) state = next () after := by
  simp [bind_apply]

@[simp] theorem pure_bind_apply (value : α) (next : α → Eval β) (state : State) :
    ((pure value : Eval α) >>= next) state = next value state := by
  simp [bind_apply]

theorem lift_apply (outcome : Except Failure α) (state : State) :
    (liftM outcome : Eval α) state =
      match outcome with
      | .ok value => some (.ok value, state)
      | .error failure => some (.error failure, state) := by
  cases outcome <;> rfl

theorem act_apply (action : Action α) (state : State) :
    act action state =
      match action state.heap with
      | .ok (value, heap) => some (.ok value, { state with heap := heap })
      | .error failure => some (.error failure, state) := by
  simp only [act, get_bind_apply]
  cases action state.heap <;> rfl

/-- A sequence of two computations succeeds only if both do, one after the other. -/
theorem bind_eq_ok {first : Eval α} {next : α → Eval β} {state after : State} {result : β}
    (found : (first >>= next) state = some (.ok result, after)) :
    ∃ value between, first state = some (.ok value, between) ∧
      next value between = some (.ok result, after) := by
  rw [bind_apply] at found
  rcases comes : first state with _ | ⟨outcome, between⟩
  · simp [comes] at found
  · cases outcome with
    | error failure => simp [comes] at found
    | ok value => exact ⟨value, between, rfl, by simpa [comes] using found⟩

theorem map_get_apply (function : State → α) (state : State) :
    (function <$> (get : Eval State)) state = some (.ok (function state), state) := rfl

theorem guardAgainst_apply (cause : SecurityCause) (dialect : Nat) (value : Value)
    (state : State) :
    guardAgainst cause dialect value state =
      if value.isCallable = true ∧ (state.dialect dialect).trusts value = false then
        some (.error (.security cause), state)
      else some (.ok (), state) := by
  unfold guardAgainst trusts
  cases callable : value.isCallable with
  | false => simp
  | true =>
      cases known : (state.dialect dialect).trusts value <;>
        simp [bind_apply, map_get_apply, known]

end Eval

end Formula
