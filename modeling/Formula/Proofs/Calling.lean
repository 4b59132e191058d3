import Formula.Proofs.Correspondence

/-!
Calls keep a correspondence: of built-in functions, of the traversals that call others, and of
functions that expressions define.
-/

namespace Formula

namespace Machine

theorem overlay_withFunctions (heap : Heap) (functions : Array DefinedFunction)
    (parameters arguments : List Value) (entries : Entries) :
    overlay (heap.withFunctions functions) parameters arguments entries =
      overlay heap parameters arguments entries := by
  induction parameters generalizing arguments entries with
  | nil => rfl
  | cons parameter parameters ih =>
      cases arguments with
      | nil => rfl
      | cons argument arguments =>
          simp only [overlay, ih, Heap.withFunctions_isKey, Heap.withFunctions_bind]

theorem callDefined_apply (perform : Perform) (function : DefinedFunction)
    (arguments : List Value) (state : State) :
    callDefined perform function arguments state =
      match overlay state.heap function.parameters arguments
        (state.heap.entries function.scope) with
      | .error failure => some (.error failure, state)
      | .ok entries =>
        resolve perform ⟨function.dialect, state.heap.maps.size⟩ function.body
          { state with heap := (state.heap.addMap entries).2 } := by
  unfold callDefined
  rw [Eval.get_bind_apply, Eval.bind_apply, Eval.lift_apply]
  cases overlay state.heap function.parameters arguments (state.heap.entries function.scope) with
  | error failure => rfl
  | ok entries => exact Eval.set_bind_apply _ _ _

namespace Correspondence

variable {rules : Correspondence} {world : rules.World} {state other : State}

section

variable (states : rules.states world state other)

include states

theorem dialect_alike (place : Nat) : other.dialect place = state.dialect place := by
  obtain ⟨functions, rfl⟩ := rules.alike states
  rfl

theorem sequence_alike (place : Nat) : other.heap.sequence place = state.heap.sequence place := by
  obtain ⟨functions, rfl⟩ := rules.alike states
  rfl

theorem truth_alike (value : Value) : other.heap.truth value = state.heap.truth value := by
  obtain ⟨functions, rfl⟩ := rules.alike states
  exact Heap.withFunctions_truth ..

theorem member_alike (value : Value) (name : Text) :
    other.heap.member value name = state.heap.member value name := by
  obtain ⟨functions, rfl⟩ := rules.alike states
  exact congrFun (congrFun (Heap.withFunctions_member ..) value) name

theorem lookup_alike (key : Value) (scope : Nat) :
    other.heap.lookup key (other.heap.entries scope) =
      state.heap.lookup key (state.heap.entries scope) := by
  obtain ⟨functions, rfl⟩ := rules.alike states
  exact congrFun (congrFun (Heap.withFunctions_lookup ..) key) _

end

/-- Two lists of results are one and may be given out. -/
def AllSame (rules : Correspondence) (world : rules.World) (left right : List Value) : Prop :=
  left = right ∧ ∀ value ∈ left, rules.values world value

theorem tracks_element (place index : Nat) :
    rules.Tracks world (element place index) (element place index) rules.Same := by
  refine tracks_get fun state other states => from_pure states ⟨?_, ?_⟩
  · rw [sequence_alike states]
  · cases found : (state.heap.sequence place)[index]? with
    | none => exact rules.opened _ _ rfl
    | some item => exact (rules.holds states).sequences place item (List.mem_of_getElem? found)

/-- A function that may be called on each good element from a world on. -/
def Visits (rules : Correspondence) (world : rules.World) (function : Value) : Prop :=
  ∀ later, rules.reaches world later → ∀ item, rules.values later item → ∀ index,
    rules.calls later function (withIndex function [item] index)

theorem Visits.later {function : Value} {later : rules.World} (visits : Visits rules world function)
    (reaches : rules.reaches world later) : Visits rules later function :=
  fun last further => visits last (rules.reaches_trans reaches further)

variable {left right : Perform} (follows : rules.Follows left right)

include follows

theorem tracks_mapFrom {function : Value} (visits : Visits rules world function)
    (place index remaining : Nat) :
    rules.Tracks world (mapFrom left function place index remaining)
      (mapFrom right function place index remaining) (AllSame rules) := by
  induction remaining generalizing world index with
  | zero => exact tracks_pure ⟨rfl, fun _ member => by cases member⟩
  | succ remaining ih =>
      refine tracks_bind (tracks_element place index) ?_
      rintro first item _ reaches ⟨rfl, good⟩
      refine tracks_bind (follows.calls first _ _ (visits first reaches item good index)) ?_
      rintro second result _ further ⟨⟨rfl, found⟩, -⟩
      have through := rules.reaches_trans reaches further
      refine tracks_bind (ih (visits.later through) (index + 1)) ?_
      rintro third results _ last ⟨rfl, all⟩
      refine tracks_pure ⟨rfl, ?_⟩
      intro value member
      rcases List.mem_cons.mp member with rfl | inside
      · exact rules.values_later last found
      · exact all value inside

theorem tracks_filterFrom {function : Value} (visits : Visits rules world function)
    (place index remaining : Nat) :
    rules.Tracks world (filterFrom left function place index remaining)
      (filterFrom right function place index remaining) (AllSame rules) := by
  induction remaining generalizing world index with
  | zero => exact tracks_pure ⟨rfl, fun _ member => by cases member⟩
  | succ remaining ih =>
      refine tracks_bind (tracks_element place index) ?_
      rintro first item _ reaches ⟨rfl, good⟩
      refine tracks_bind (follows.calls first _ _ (visits first reaches item good index)) ?_
      rintro second verdict _ further ⟨⟨rfl, -⟩, -⟩
      have through := rules.reaches_trans reaches further
      refine tracks_get fun state other states => ?_
      rw [truth_alike states]
      refine from_bind (ih (visits.later through) (index + 1) state other states) ?_
      rintro third others _ last ⟨rfl, all⟩
      refine tracks_pure ⟨rfl, ?_⟩
      intro value member
      split at member
      · rcases List.mem_cons.mp member with rfl | inside
        · exact rules.values_later last (rules.values_later further good)
        · exact all value inside
      · exact all value member

theorem tracks_foldFrom {function total : Value} (carries : rules.carries world function total)
    (known : rules.values world total) (place index remaining : Nat) :
    rules.Tracks world (foldFrom left function place index total remaining)
      (foldFrom right function place index total remaining) rules.Same := by
  induction remaining generalizing world index total with
  | zero => exact tracks_pure ⟨rfl, known⟩
  | succ remaining ih =>
      refine tracks_bind (tracks_element place index) ?_
      rintro first item _ reaches ⟨rfl, good⟩
      have ready := rules.carries_later reaches carries
      refine tracks_bind (follows.calls first _ _
        (rules.carries_calls ready (rules.values_later reaches known) good index)) ?_
      rintro second next _ further ⟨⟨rfl, found⟩, gathered⟩
      exact ih (rules.carries_next (rules.carries_later further ready) gathered) found (index + 1)

omit follows in
theorem tracks_traversed (traversal : String) (function collection : Value) :
    rules.Tracks world (traversed traversal function collection)
      (traversed traversal function collection)
      fun _ one two => one = two ∧ function.isCallable = true ∧
        collection.sequence? = some one.1 := by
  unfold traversed
  cases callable : function.isCallable with
  | false => exact tracks_throw _
  | true =>
      cases found : collection.sequence? with
      | none => exact tracks_throw _
      | some place =>
          refine tracks_get fun state other states => from_pure states ⟨?_, rfl, rfl⟩
          rw [sequence_alike states]

omit follows in
theorem tracks_random (factor : Value) :
    rules.Tracks world (random factor) (random factor) rules.Same := by
  refine tracks_get fun state other states => ?_
  have drawn := rules.draws states
  have number : other.draw.1 = state.draw.1 := by
    obtain ⟨functions, rfl⟩ := rules.alike states
    rfl
  intro outcome after found
  simp only [Eval.set_bind_apply] at found ⊢
  have truth := truth_alike drawn factor
  rw [show other.draw = (state.draw.1, other.draw.2) from Prod.ext number rfl]
  simp only [truth]
  exact rules.acts (Arithmetic.tame_multiply (rules.opened world) _ _) _ _ drawn outcome after found

omit follows in
/-- A traversal that lacks an argument fails. -/
theorem apply_traversal {function : Builtin} (traversal : (Value.builtin function).gathers = true)
    (arguments : List Value) (heap : Heap) :
    function.apply arguments heap = .error (.operand .wrongType) := by
  cases function <;> first | rfl | cases traversal

omit follows in
theorem tracks_apply {function : Builtin} {arguments : List Value}
    (calls : rules.calls world (.builtin function) arguments) :
    rules.Tracks world (Eval.act (function.apply arguments)) (Eval.act (function.apply arguments))
      (rules.Answer (.builtin function)) := by
  cases traversal : (Value.builtin function).gathers with
  | true =>
      intro state other states outcome after found
      simp only [Eval.act_apply, apply_traversal traversal, Option.some.injEq,
        Prod.mk.injEq] at found
      obtain ⟨rfl, rfl⟩ := found
      refine ⟨world, _, other, rules.reaches_refl world, ?_, states, .error _⟩
      simp only [Eval.act_apply, apply_traversal traversal]
  | false =>
      refine tracks_weaken (rules.applies calls) fun later one two reaches same => ⟨same, ?_⟩
      intro gathers
      rw [traversal] at gathers
      cases gathers

omit follows in
theorem tracks_gathered {function : Value} {left right : Eval (List Value)}
    (tracked : rules.Tracks world left right (AllSame rules)) :
    rules.Tracks world (left >>= fun items => Eval.act (Action.newList items))
      (right >>= fun items => Eval.act (Action.newList items)) (rules.Answer function) := by
  refine tracks_bind tracked ?_
  rintro later items _ reaches ⟨rfl, all⟩
  intro state other states outcome after found
  obtain ⟨last, counterpart, reached, further, came, statesLast, outcomes⟩ :=
    rules.acts (Action.tame_newList (rules.opened later) all) state other states outcome after found
  refine ⟨last, counterpart, reached, further, came, statesLast, ?_⟩
  rw [Eval.act_apply] at found
  cases found
  cases outcomes with
  | ok same => exact .ok ⟨same, fun _ => rfl⟩

theorem tracks_callBuiltin {function : Builtin} {arguments : List Value}
    (calls : rules.calls world (.builtin function) arguments) :
    rules.Tracks world (callBuiltin left function arguments)
      (callBuiltin right function arguments) (rules.Answer (.builtin function)) := by
  unfold callBuiltin
  split
  · rename_i function collection
    refine tracks_bind (tracks_traversed "map" function collection) ?_
    rintro later ⟨place, size⟩ _ reaches ⟨rfl, callable, sequence⟩
    refine tracks_gathered (tracks_mapFrom follows ?_ place 0 size)
    intro last further item good index
    exact rules.visits (.inl rfl)
      (rules.calls_later (rules.reaches_trans reaches further) calls) callable sequence good index
  · rename_i function collection
    refine tracks_bind (tracks_traversed "filter" function collection) ?_
    rintro later ⟨place, size⟩ _ reaches ⟨rfl, callable, sequence⟩
    refine tracks_gathered (tracks_filterFrom follows ?_ place 0 size)
    intro last further item good index
    exact rules.visits (.inr rfl)
      (rules.calls_later (rules.reaches_trans reaches further) calls) callable sequence good index
  · rename_i function first collection
    refine tracks_bind (tracks_traversed "fold" function collection) ?_
    rintro later ⟨place, size⟩ _ reaches ⟨rfl, callable, sequence⟩
    obtain ⟨known, carries⟩ := rules.folds (rules.calls_later reaches calls) callable sequence
    refine tracks_weaken (tracks_foldFrom follows carries known place 0 size) ?_
    exact fun _ _ _ _ same => ⟨same, nofun⟩
  · exact tracks_weaken (tracks_random _) fun _ _ _ _ same => ⟨same, nofun⟩
  · exact tracks_weaken (tracks_random _) fun _ _ _ _ same => ⟨same, nofun⟩
  · exact tracks_apply calls

theorem tracks_resolve {frame : Frame} (framed : rules.frames world frame)
    {one two : Operand} (operands : rules.Operands world frame one two) :
    rules.Tracks world (resolve left frame one) (resolve right frame two) rules.Same := by
  cases operands with
  | value known => exact tracks_pure ⟨rfl, known⟩
  | suspended related => exact follows.runs world frame _ _ framed related

theorem from_callDefined {place : Nat} {one two : DefinedFunction} {arguments : List Value}
    (states : rules.states world state other)
    (entered : rules.Entered world state other arguments (some one) (some two)) :
    rules.From world state other (callDefined left one arguments) (callDefined right two arguments)
      (rules.Answer (.defined place)) := by
  cases entered with
  | found parameters dialect scope inside =>
      have overlaid : overlay other.heap two.parameters arguments (other.heap.entries two.scope) =
          overlay state.heap one.parameters arguments (state.heap.entries one.scope) := by
        obtain ⟨functions, rfl⟩ := rules.alike states
        rw [parameters, scope]
        exact overlay_withFunctions state.heap functions _ _ _
      have size : other.heap.maps.size = state.heap.maps.size := by
        obtain ⟨functions, rfl⟩ := rules.alike states
        rfl
      intro outcome after came
      rw [callDefined_apply] at came
      rw [callDefined_apply, overlaid, dialect, size]
      cases bound : overlay state.heap one.parameters arguments (state.heap.entries one.scope) with
      | error failure =>
          simp only [bound, Option.some.injEq, Prod.mk.injEq] at came
          obtain ⟨rfl, rfl⟩ := came
          exact ⟨world, _, other, rules.reaches_refl world, rfl, states, .error failure⟩
      | ok entries =>
          simp only [bound] at came
          obtain ⟨later, reaches, ready, framed, operands⟩ := inside entries bound
          have tracked : rules.Tracks later
              (resolve left ⟨one.dialect, state.heap.maps.size⟩ one.body)
              (resolve right ⟨one.dialect, state.heap.maps.size⟩ two.body)
              (rules.Answer (.defined place)) :=
            tracks_weaken (tracks_resolve follows framed operands)
              fun _ _ _ _ same => ⟨same, nofun⟩
          exact from_ahead reaches (tracked _ _ ready) outcome after came

theorem tracks_call {function : Value} {arguments : List Value}
    (calls : rules.calls world function arguments) :
    rules.Tracks world (call left function arguments) (call right function arguments)
      (rules.Answer function) := by
  have refused : rules.Tracks world (Eval.refuse .wrongType) (Eval.refuse .wrongType)
      (rules.Answer function) := tracks_throw _
  cases function with
  | builtin function => exact tracks_callBuiltin follows calls
  | defined place =>
      refine tracks_get fun state other states => ?_
      have entered := rules.enters calls states
      revert entered
      generalize state.heap.function? place = one
      generalize other.heap.function? place = two
      intro entered
      cases entered with
      | missing => exact from_throw _ states
      | found parameters dialect scope inside =>
          exact from_callDefined follows states (.found parameters dialect scope inside)
  | host serial name =>
      exact tracks_pure ⟨⟨rfl, rules.opened world _ rfl⟩, nofun⟩
  | _ => exact refused

end Correspondence

end Machine

end Formula
