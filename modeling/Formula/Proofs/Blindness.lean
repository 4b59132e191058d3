import Formula.Proofs.Stepping

/-!
Computations that do not look into functions: with other functions in the heap they come to the same,
and leave those there.
-/

namespace Formula

namespace State

variable (state : State) (functions : Array DefinedFunction)

theorem withFunctions_bind (scope : Nat) (name value : Value) :
    (state.bind scope name value).withFunctions functions =
      (state.withFunctions functions).bind scope name value := by
  simp only [bind, withFunctions, Heap.withFunctions_bind, Heap.withFunctions_entries]
  rfl

theorem withFunctions_draw :
    (state.withFunctions functions).draw = (state.draw.1, state.draw.2.withFunctions functions) := by
  obtain ⟨heap, dialects, definitions, seed⟩ := state
  rfl

end State

namespace Eval

variable {α β : Type}

/-- A computation that does not look into functions. -/
def Blind (computation : Eval α) : Prop :=
  ∀ (state : State) (functions : Array DefinedFunction),
    computation (state.withFunctions functions) =
      (computation state).map fun came => (came.1, came.2.withFunctions functions)

theorem blind_pure (value : α) : Blind (pure value) := fun _ _ => rfl

theorem blind_throw (failure : Failure) : Blind (throw failure : Eval α) := fun _ _ => rfl

theorem blind_refuse (fault : OperandFault) : Blind (refuse fault : Eval α) := blind_throw _

theorem Blind.bind {first : Eval α} {next : α → Eval β} (blind : first.Blind)
    (others : ∀ value, (next value).Blind) : (first >>= next).Blind := by
  intro state functions
  rw [bind_apply, bind_apply, blind]
  rcases first state with _ | ⟨_ | value, after⟩
  · rfl
  · rfl
  · exact others value after functions

/-- A computation that first looks at the state, but not at its functions. -/
theorem blind_get {next : State → Eval α}
    (same : ∀ state functions, next (state.withFunctions functions) = next state)
    (others : ∀ state, (next state).Blind) : (get >>= next).Blind := by
  intro state functions
  rw [get_bind_apply, get_bind_apply, same]
  exact others state state functions

theorem blind_act {action : Action α}
    (blind : ∀ heap functions, action (Heap.withFunctions heap functions) =
      (action heap).map fun came => (came.1, came.2.withFunctions functions)) :
    (act action).Blind := by
  intro state functions
  rw [act_apply, act_apply, State.withFunctions, blind]
  rcases action state.heap with failure | ⟨value, heap⟩ <;> rfl

theorem blind_guardAgainst (cause : SecurityCause) (dialect : Nat) (value : Value) :
    (guardAgainst cause dialect value).Blind := by
  intro state functions
  rw [guardAgainst_apply, guardAgainst_apply]
  change (if value.isCallable = true ∧ (state.dialect dialect).trusts value = false then _ else _) = _
  split <;> rfl

/-- A value that is given out if it passes the test of trust. -/
theorem blind_given (cause : SecurityCause) (dialect : Nat) (value : Value) :
    Blind (do guardAgainst cause dialect value; return value) :=
  (blind_guardAgainst cause dialect value).bind fun _ => blind_pure value

/-- A tame action does not look into functions. -/
theorem blind_tame {action : Action α} {answers : α → Prop}
    (tame : Action.Tame (fun _ => True) (fun _ => True) answers action) : (act action).Blind := by
  refine blind_act fun heap functions => tame.blind heap ⟨?_, ?_⟩ functions
  · exact fun _ _ _ => trivial
  · exact fun _ _ _ => trivial

theorem blind_apply (function : Builtin) (arguments : List Value) :
    (act (function.apply arguments)).Blind :=
  blind_tame (function.tame_apply (fun _ _ => trivial) (fun _ _ => trivial) fun _ _ _ => trivial)

theorem blind_newList (items : List Value) : (act (Action.newList items)).Blind :=
  blind_tame (Action.tame_newList (fun _ _ => trivial) fun _ _ => trivial)

end Eval

namespace Machine

open Eval

theorem blind_traversed (traversal : String) (function collection : Value) :
    (traversed traversal function collection).Blind := by
  unfold traversed
  cases function.isCallable with
  | false => exact blind_throw _
  | true =>
      cases collection.sequence? with
      | none => exact blind_throw _
      | some place => exact blind_get (fun _ _ => rfl) fun _ => blind_pure _

theorem blind_element (place index : Nat) : (element place index).Blind :=
  blind_get (fun _ _ => rfl) fun _ => blind_pure _

theorem blind_random (factor : Value) : (random factor).Blind := by
  intro state functions
  have multiplied (factor : Value) : (act (Arithmetic.multiply (.float state.draw.1) factor)).Blind :=
    blind_tame (Arithmetic.tame_multiply (fun _ _ => trivial) _ _)
  have truth : (state.draw.2.withFunctions functions).heap.truth factor = state.draw.2.heap.truth factor :=
    Heap.withFunctions_truth ..
  simp only [random, get_bind_apply, set_bind_apply, State.withFunctions_draw, truth]
  exact multiplied _ _ _

theorem blind_operator (table : Dialect → Table) (frame : Frame) (symbol : Text) :
    (operator table frame symbol).Blind := by
  refine blind_get (fun _ _ => rfl) fun state => ?_
  split
  · exact blind_pure _
  · exact blind_throw _

theorem blind_lookup (frame : Frame) (name : Text) : (lookup frame name).Blind := by
  unfold lookup
  split
  · exact blind_throw _
  · refine blind_get (fun state functions => ?_) fun state => ?_
    · simp only [State.withFunctions, Heap.withFunctions_lookup, Heap.withFunctions_entries]
      rfl
    · simp only
      cases (state.dialect frame.dialect).functions.get? name with
      | some function => exact blind_pure _
      | none =>
          simp only
          split
          · exact blind_pure _
          · cases state.heap.lookup (.text name) (state.heap.entries frame.scope) with
            | none => exact blind_throw _
            | some value => exact blind_given _ _ _

theorem blind_readMember (frame : Frame) (target : Value) (name : Text) :
    (readMember frame target name).Blind := by
  unfold readMember
  split
  · exact blind_throw _
  · refine blind_get (fun state functions => ?_) fun state => ?_
    · simp only [State.withFunctions, Heap.withFunctions_member]
    · split
      · exact blind_throw _
      · exact blind_given _ _ _

theorem blind_guardAll (frame : Frame) (arguments : List Value) : (guardAll frame arguments).Blind := by
  unfold guardAll
  induction arguments with
  | nil => exact blind_pure _
  | cons argument rest ih =>
      simp only [List.forIn_cons, bind_assoc, pure_bind]
      exact (blind_guardAgainst _ _ _).bind fun _ => ih

end Machine

end Formula
