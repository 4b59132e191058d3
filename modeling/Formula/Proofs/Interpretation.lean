import Formula.Proofs.Determinism
import Formula.Proofs.Knowledge
import Formula.Proofs.Trust
import Formula.Proofs.Typing

/-!
The machine on expressions of integers and truth values: it comes to what an expression denotes, and
leaves the state as it is. Operands that it skips are worked out by nobody.
-/

namespace Formula

open Machine

namespace Datum

theorem isScalar_value (datum : Datum) : datum.value.isScalar = true := by
  cases datum <;> rfl

/-- The function behind an operator with one operand gives the result of the operator. -/
theorem known_unary {symbol : Text} {datum result : Datum} (known : datum.unary? symbol = some result) :
    ∃ function, standardUnary.get? symbol = some (.builtin function) ∧
      ∀ heap, function.apply [datum.value] heap = .ok (result.value, heap) := by
  cases datum with
  | int number =>
      obtain ⟨function, held, rfl⟩ := Option.map_eq_some_iff.mp known
      have listed := mem_of_lookup held
      simp only [integerFunctions, List.mem_cons, Prod.mk.injEq, List.not_mem_nil, or_false] at listed
      rcases listed with ⟨rfl, rfl⟩ | ⟨rfl, rfl⟩ | ⟨rfl, rfl⟩
      · exact ⟨.negate, rfl, fun _ => rfl⟩
      · exact ⟨.positive, rfl, fun _ => rfl⟩
      · exact ⟨.abs, rfl, fun _ => rfl⟩
  | bool truth =>
      rw [unary?] at known
      split at known
      · rename_i same
        cases known
        exact ⟨.not, same ▸ rfl, fun _ => rfl⟩
      · cases known

/-- A function behind an operator with two operands that gives the same on every heap. -/
def Gives (symbol : Text) (one two result : Datum) : Prop :=
  symbol ≠ Text.ofString "=" ∧ ∃ function, standardBinary.get? symbol = some (.builtin function) ∧
    ∀ heap, function.apply [one.value, two.value] heap = .ok (result.value, heap)

theorem compare_eq (left right : Int) :
    compare left right = if left < right then .lt else if left = right then .eq else .gt := rfl

theorem gives_strict {symbol : Text} {function : Datum → Datum → Datum}
    (listed : (symbol, function) ∈ strict) (one two : Datum) : Gives symbol one two (function one two) := by
  -- The functions look at the order of the two numbers, which is one of three.
  have decided {builtin : Builtin} {truth : Bool} (answer : Ordering → Bool)
      (gives : ∀ heap, builtin.apply [one.value, two.value] heap =
        .ok (.bool (answer (compare one.number two.number)), heap))
      (agrees : answer (compare one.number two.number) = truth) (heap : Heap) :
      builtin.apply [one.value, two.value] heap = .ok (.bool truth, heap) :=
    agrees ▸ gives heap
  have same (heap : Heap) : heap.same one.value two.value = (one == two) := by
    cases one with
    | int left =>
        cases two with
        | int right =>
            have order : heap.same (.int left) (.int right) = (some (compare left right) == some .eq) := rfl
            exact order.trans (by grind [compare_eq])
        | bool right => rfl
    | bool left =>
        cases two with
        | int right => rfl
        | bool right => exact (bool_beq left right).symm
  simp only [strict, List.mem_cons, Prod.mk.injEq, List.not_mem_nil, or_false] at listed
  rcases listed with ⟨rfl, rfl⟩ | ⟨rfl, rfl⟩ | ⟨rfl, rfl⟩ | ⟨rfl, rfl⟩ | ⟨rfl, rfl⟩ | ⟨rfl, rfl⟩ | ⟨rfl, rfl⟩ |
    ⟨rfl, rfl⟩ | ⟨rfl, rfl⟩
  · exact ⟨by decide, .add, rfl, fun _ => by cases one <;> cases two <;> rfl⟩
  · exact ⟨by decide, .subtract, rfl, fun _ => by cases one <;> cases two <;> rfl⟩
  · exact ⟨by decide, .multiply, rfl, fun _ => by cases one <;> cases two <;> rfl⟩
  · exact ⟨by decide, .equal, rfl, fun heap => congrArg (fun truth => Except.ok (Value.bool truth, heap)) (same heap)⟩
  · exact ⟨by decide, .notEqual, rfl,
      fun heap => congrArg (fun truth => Except.ok (Value.bool !truth, heap)) (same heap)⟩
  · refine ⟨by decide, .less, rfl, decided OrderTest.less.holds (fun _ => ?_) ?_⟩
    · cases one <;> cases two <;> rfl
    · grind [OrderTest.holds, compare_eq]
  · refine ⟨by decide, .lessEqual, rfl, decided OrderTest.lessEqual.holds (fun _ => ?_) ?_⟩
    · cases one <;> cases two <;> rfl
    · grind [OrderTest.holds, compare_eq]
  · refine ⟨by decide, .greater, rfl, decided OrderTest.greater.holds (fun _ => ?_) ?_⟩
    · cases one <;> cases two <;> rfl
    · grind [OrderTest.holds, compare_eq]
  · refine ⟨by decide, .greaterEqual, rfl, decided OrderTest.greaterEqual.holds (fun _ => ?_) ?_⟩
    · cases one <;> cases two <;> rfl
    · grind [OrderTest.holds, compare_eq]

theorem gives_binary {symbol : Text} {one two result : Datum}
    (known : one.binary? symbol two = some result) : Gives symbol one two result := by
  obtain ⟨function, listed, rfl⟩ := strict_of_binary known
  exact gives_strict listed one two

/-- The better of two integers, the first of two equal ones. -/
def better (test : OrderTest) (champion next : Int) : Int :=
  if test.holds (compare next champion) = true then next else champion

theorem better_less : better .less = min := by
  funext champion next
  grind [better, OrderTest.holds, compare_eq]

theorem better_greater : better .greater = max := by
  funext champion next
  grind [better, OrderTest.holds, compare_eq]

theorem best_integers (heap : Heap) (test : OrderTest) (first : Int) (others : List Int) :
    Sequence.best heap test (.int first) (others.map .int) =
      .ok (.int (others.foldl (better test) first)) := by
  induction others generalizing first with
  | nil => rfl
  | cons next others ih =>
      have beaten : heap.test test (.int next) (.int first) = .ok (test.holds (compare next first)) := rfl
      rw [List.map_cons, Sequence.best, beaten, List.foldl_cons, ← ih, better]
      cases test.holds (compare next first) <;> rfl

/-- A function of several integers gives their extremum. -/
theorem gives_extremum {name : Text} {function : Int → Int → Int} (listed : (name, function) ∈ extrema) :
    ∃ builtin, standardFunctions.get? name = some (.builtin builtin) ∧
      (Value.builtin builtin).isDirect = true ∧ ∀ first second others heap,
        builtin.apply ((first :: second :: others).map .int) heap =
          .ok (.int ((second :: others).foldl function first), heap) := by
  have lifted (outcome : Except Failure Value) (heap : Heap) :
      (liftM outcome : Action Value) heap = outcome.map (·, heap) := by
    cases outcome <;> rfl
  have applied (test : OrderTest) (limit : Float) (same : better test = function) (first second : Int)
      (others : List Int) (heap : Heap) :
      (Sequence.extremum heap test limit ((first :: second :: others).map .int)).map (·, heap) =
        .ok (.int ((second :: others).foldl function first), heap) := by
    rw [← same]
    exact congrArg (Except.map (·, heap)) (best_integers heap test first (second :: others))
  simp only [extrema, List.mem_cons, Prod.mk.injEq, List.not_mem_nil, or_false] at listed
  rcases listed with ⟨rfl, rfl⟩ | ⟨rfl, rfl⟩
  · refine ⟨.min, rfl, rfl, fun first second others heap => ?_⟩
    rw [← applied .less Double.infinity better_less, ← lifted]
    rcases others with _ | ⟨third, _ | ⟨fourth, others⟩⟩ <;> rfl
  · refine ⟨.max, rfl, rfl, fun first second others heap => ?_⟩
    rw [← applied .greater (-Double.infinity) better_greater, ← lifted]
    rcases others with _ | ⟨third, _ | ⟨fourth, others⟩⟩ <;> rfl

end Datum

/-- A state and a frame in which an expression can be worked out: operators and extrema have their
standard functions, and names mean data. -/
structure Ready (environment : Text → Option Datum) (frame : Frame) (state : State) : Prop where
  operates : (state.dialect frame.dialect).Operates
  extrema : ∀ name ∈ Datum.extrema.map (·.1),
    (state.dialect frame.dialect).functions.get? name = standardFunctions.get? name
  names : ∀ name datum, environment name = some datum →
    lookup frame name state = some (.ok datum.value, state)

namespace Ready

variable {environment : Text → Option Datum} {frame : Frame} {state : State} {within : Datum → Prop}

theorem knows (ready : Ready environment frame state) : Knows [] frame state :=
  ⟨ready.operates, fun _ _ known => by cases known⟩

end Ready

/-- From some nesting depth on, a program pushes values and changes nothing. -/
def Pushes (frame : Frame) (state : State) (program : Program) (values : List Value) : Prop :=
  ∃ least, ∀ depth, least ≤ depth → ∀ stack, Eval.Reads False state
    (steps (perform depth) frame program stack) (values.reverse.map .value ++ stack)

namespace Pushes

variable {frame : Frame} {state : State} {first second program : Program} {values others : List Value}

theorem nil : Pushes frame state [] [] :=
  ⟨0, fun _ _ stack => Eval.reads_pure stack⟩

theorem append (left : Pushes frame state first values) (right : Pushes frame state second others) :
    Pushes frame state (first ++ second) (values ++ others) := by
  obtain ⟨least, left⟩ := left
  obtain ⟨bound, right⟩ := right
  refine ⟨max least bound, fun depth enough stack => ?_⟩
  rw [List.reverse_append, List.map_append, List.append_assoc]
  exact reads_append (left depth (by omega) stack) (right depth (by omega) _)

/-- One more instruction, on which requests may be nested up to some depth. -/
theorem last_above (bound : Nat) {instruction : Instruction} {value : Value}
    (operands : Pushes frame state program values)
    (step : ∀ depth, bound ≤ depth → ∀ stack, Eval.Reads False state
      (step (perform depth) frame instruction (values.reverse.map .value ++ stack)) (.value value :: stack)) :
    Pushes frame state (program ++ [instruction]) [value] := by
  obtain ⟨least, operands⟩ := operands
  exact ⟨max least bound, fun depth enough stack =>
    reads_last (operands depth (by omega) stack) (step depth (by omega) stack)⟩

/-- One more instruction, which may call the functions behind operators. -/
theorem last {instruction : Instruction} {value : Value} (operands : Pushes frame state program values)
    (step : ∀ depth stack, Eval.Reads False state
      (step (perform (depth + 1)) frame instruction (values.reverse.map .value ++ stack))
      (.value value :: stack)) : Pushes frame state (program ++ [instruction]) [value] := by
  refine operands.last_above 1 fun depth enough stack => ?_
  obtain ⟨depth, rfl⟩ : ∃ less, depth = less + 1 := ⟨depth - 1, by omega⟩
  exact step depth stack

theorem name {word : Text} {value : Value} (found : lookup frame word state = some (.ok value, state)) :
    Pushes frame state [.name word] [value] :=
  Pushes.last .nil fun _ _ => Eval.reads_bind (.inl found) (Eval.reads_pure _)

/-- What a suspended program is resolved to. -/
theorem resolves {value : Value} (pushes : Pushes frame state program [value])
    (plain : unsigned value = value) : ∃ least, ∀ depth, least ≤ depth →
      Eval.Reads False state (resolve (perform depth) frame (.suspended program)) value := by
  obtain ⟨least, pushes⟩ := pushes
  refine ⟨least + 1, fun depth enough => ?_⟩
  obtain ⟨depth, rfl⟩ : ∃ less, depth = less + 1 := ⟨depth - 1, by omega⟩
  refine Eval.reads_bind (pushes depth (by omega) []) ?_
  have ends : Eval.Reads False state (do return unsigned (← resolve (perform depth) frame (.value value)))
      (unsigned value) := Eval.reads_bind (Eval.reads_pure value) (Eval.reads_pure _)
  rwa [plain] at ends

end Pushes

section

variable {environment : Text → Option Datum} {frame : Frame} {state : State} {within : Datum → Prop}
  {answers : Perform}

theorem reads_holds {operand : Operand} {value : Value}
    (resolved : Eval.Reads False state (resolve answers frame operand) value) :
    Eval.Reads False state (holds answers frame operand) (state.heap.truth value) :=
  Eval.reads_bind resolved (Eval.reads_get (Eval.reads_pure (state.heap.truth value)))

/-- A connective skips its right operand only where that could not change its value. -/
theorem reads_connective {symbol : Text} {function : Bool → Bool → Bool} {one two : Value}
    {left right : Operand} (listed : (symbol, function) ∈ Datum.connectives)
    (resolvedLeft : Eval.Reads False state (resolve answers frame left) one)
    (resolvedRight : Eval.Reads False state (resolve answers frame right) two) :
    Eval.Reads False state (binary answers frame symbol left right)
      (.bool (function (state.heap.truth one) (state.heap.truth two))) := by
  have first := reads_holds resolvedLeft
  have second := reads_holds resolvedRight
  simp only [Datum.connectives, List.mem_cons, Prod.mk.injEq, List.not_mem_nil, or_false] at listed
  rcases listed with ⟨rfl, rfl⟩ | ⟨rfl, rfl⟩
  · rw [binary, if_pos rfl]
    refine Eval.reads_bind first ?_
    cases state.heap.truth one with
    | true => exact Eval.reads_bind second (Eval.reads_pure _)
    | false => exact Eval.reads_pure _
  · rw [binary, if_neg (by decide), if_pos rfl]
    refine Eval.reads_bind first ?_
    cases state.heap.truth one with
    | true => exact Eval.reads_pure _
    | false => exact Eval.reads_bind second (Eval.reads_pure _)

/-- A conditional resolves the arm that its condition selects. -/
theorem reads_conditional {met : Bool} {one two : Value} {condition yes no : Operand}
    (resolved : Eval.Reads False state (resolve answers frame condition) (Datum.bool met).value)
    (resolvedYes : Eval.Reads False state (resolve answers frame yes) one)
    (resolvedNo : Eval.Reads False state (resolve answers frame no) two) :
    Eval.Reads False state (ternary answers frame Term.conditionSymbol condition yes no)
      (if met then one else two) := by
  rw [ternary, Term.conditionSymbol, if_pos rfl]
  refine Eval.reads_bind (reads_holds resolved) ?_
  cases met with
  | true => exact resolvedYes
  | false => exact resolvedNo

theorem reads_popResolved (values taken : List Value) (stack : Stack) :
    Eval.Reads False state
      (popResolved answers frame values.length (values.map .value ++ stack) taken)
      (values.reverse ++ taken, stack) := by
  induction values generalizing taken with
  | nil => exact Eval.reads_pure (taken, stack)
  | cons value values ih =>
      rw [List.reverse_cons, List.append_assoc]
      refine Eval.reads_bind (Eval.reads_pure (Operand.value value, values.map .value ++ stack)) ?_
      exact Eval.reads_bind (Eval.reads_pure value) (ih (value :: taken))

theorem lookup_function {name : Text} {function : Value} (proper : Text.isReserved name = false)
    (held : (state.dialect frame.dialect).functions.get? name = some function) :
    lookup frame name state = some (.ok function, state) := by
  rw [lookup, proper]
  simp [held]

/-- A call passes where the function and every callable among its arguments are trusted. -/
theorem callTrusted_admitted {function : Value} {arguments : List Value} (callable : function.isCallable = true)
    (trusted : (state.dialect frame.dialect).trusts function = true)
    (admitted : ∀ argument ∈ arguments,
      argument.isCallable = true → (state.dialect frame.dialect).trusts argument = true) :
    callTrusted answers frame function arguments state = answers (.call function arguments) state := by
  have passes {value : Value} (cause : SecurityCause)
      (sound : value.isCallable = true → (state.dialect frame.dialect).trusts value = true) :
      Eval.guardAgainst cause frame.dialect value state = some (.ok (), state) := by
    rw [Eval.guardAgainst_apply]
    cases known : value.isCallable with
    | false => rfl
    | true => rw [sound known]; rfl
  have guarded : (forIn arguments PUnit.unit fun argument _ => do
        Eval.guardAgainst .argument frame.dialect argument
        pure (ForInStep.yield PUnit.unit) : Eval PUnit) state = some (.ok PUnit.unit, state) := by
    induction arguments with
    | nil => rfl
    | cons argument arguments ih =>
        obtain ⟨first, others⟩ := List.forall_mem_cons.mp admitted
        rw [List.forIn_cons, bind_assoc, Eval.bind_apply, passes .argument first]
        exact ih others
  rw [callTrusted, callable]
  simp only [if_true]
  rw [Eval.bind_apply, passes .call fun _ => trusted]
  dsimp only
  rw [Eval.bind_apply, guarded]

theorem reads_admitted {function result : Value} {arguments : List Value} (callable : function.isCallable = true)
    (trusted : (state.dialect frame.dialect).trusts function = true)
    (admitted : ∀ argument ∈ arguments,
      argument.isCallable = true → (state.dialect frame.dialect).trusts argument = true)
    (called : Eval.Reads False state (answers (.call function arguments)) result) :
    Eval.Reads False state (callTrusted answers frame function arguments) result := by
  rwa [Eval.Reads, callTrusted_admitted callable trusted admitted]

theorem trusts_held {name : Text} {function : Builtin}
    (held : (state.dialect frame.dialect).functions.get? name = some (.builtin function)) :
    (state.dialect frame.dialect).trusts (.builtin function) = true :=
  (Dialect.trusts_iff ..).mpr ⟨_, .inl (Table.mem_of_get? held), by simp [Value.sameCallable]⟩

/-- A call of a function that the dialect names, on data. -/
theorem reads_callTrusted {builtin : Builtin} {name : Text} {numbers : List Int} {result : Value}
    (works : Works False answers) (direct : (Value.builtin builtin).isDirect = true)
    (held : (state.dialect frame.dialect).functions.get? name = some (.builtin builtin))
    (applies : ∀ heap, builtin.apply (numbers.map .int) heap = .ok (result, heap)) :
    Eval.Reads False state (callTrusted answers frame (.builtin builtin) (numbers.map .int)) result := by
  refine reads_admitted rfl (trusts_held held) (fun argument member callable => ?_)
    (reads_call works direct applies)
  obtain ⟨number, -, rfl⟩ := List.mem_map.mp member
  cases callable

theorem pushes_operator (knows : Knows [] frame state) {symbol : Text} {one two result : Datum}
    (gives : Datum.Gives symbol one two result) {first second : Program} (left : Pushes frame state first [one.value])
    (right : Pushes frame state second [two.value]) :
    Pushes frame state (first ++ second ++ [.binary symbol]) [result.value] :=
  (left.append right).last fun depth stack => reads_binary knows (works_perform_succ depth) gives.1
    one.isScalar_value two.isScalar_value (fun _ _ _ => ⟨result.isScalar_value, gives.2⟩) stack

/-- A connective of two programs, the second of which is suspended. -/
theorem pushes_connective {symbol : Text} {function : Bool → Bool → Bool} {first second : Program}
    {one two : Value} (listed : (symbol, function) ∈ Datum.connectives) (left : Pushes frame state first [one])
    (right : Pushes frame state second [two]) (plain : unsigned two = two) :
    Pushes frame state (first ++ [.nested second, .binary symbol])
      [.bool (function (state.heap.truth one) (state.heap.truth two))] := by
  obtain ⟨least, left⟩ := left
  obtain ⟨bound, right⟩ := right.resolves plain
  refine ⟨max least bound, fun depth enough stack => reads_append (left depth (by omega) stack) ?_⟩
  refine Eval.reads_bind (Eval.reads_pure _) (Eval.reads_bind ?_ (Eval.reads_pure _))
  refine Eval.reads_bind (Eval.reads_pure (Operand.suspended _, _)) ?_
  refine Eval.reads_bind (Eval.reads_pure (Operand.value _, stack)) ?_
  exact Eval.reads_bind (reads_connective listed (Eval.reads_pure _) (right depth (by omega))) (Eval.reads_pure _)

theorem pushes_each {arguments : List Term} {numbers : List Int} (each : List.Forall₂
      (fun argument number => Pushes frame state argument.code [Value.int number]) arguments numbers) :
    Pushes frame state (Term.codeAll arguments) (numbers.map .int) := by
  induction each with
  | nil => exact .nil
  | cons first others ih => exact first.append ih

/-- The machine comes to what an expression denotes. -/
theorem Denotes.pushes (ready : Ready environment frame state) {term : Term} {datum : Datum}
    (denotes : Denotes environment within term datum) : Pushes frame state term.code [datum.value] := by
  have plain (datum : Datum) : unsigned datum.value = datum.value := by cases datum <;> rfl
  induction denotes with
  | literal _ => exact ⟨0, fun _ _ stack => Eval.reads_pure _⟩
  | argument known _ => exact .name (ready.names _ _ known)
  | @unary symbol operand datum result _ known _ ih =>
      exact ih.last fun depth stack => reads_unary ready.knows (works_perform_succ depth)
        datum.isScalar_value (fun _ => ⟨result.isScalar_value, Datum.known_unary known⟩) stack
  | binary _ _ known _ ihLeft ihRight =>
      exact pushes_operator ready.knows (Datum.gives_binary known) ihLeft ihRight
  | connective listed _ _ _ ihLeft ihRight => exact pushes_connective listed ihLeft ihRight rfl
  | @conditional condition yes no met one two _ _ _ _ _ ih ihYes ihNo =>
      obtain ⟨least, condition⟩ := ih
      obtain ⟨boundYes, yes⟩ := ihYes.resolves (plain one)
      obtain ⟨boundNo, no⟩ := ihNo.resolves (plain two)
      refine ⟨max least (max boundYes boundNo), fun depth enough stack =>
        reads_append (condition depth (by omega) stack) ?_⟩
      refine Eval.reads_bind (Eval.reads_pure _) (Eval.reads_bind (Eval.reads_pure _) ?_)
      refine Eval.reads_bind ?_ (Eval.reads_pure _)
      refine Eval.reads_bind (Eval.reads_pure (Operand.suspended _, _)) ?_
      refine Eval.reads_bind (Eval.reads_pure (Operand.suspended _, _)) ?_
      refine Eval.reads_bind (Eval.reads_pure (Operand.value _, stack)) ?_
      rw [apply_ite Datum.value]
      exact Eval.reads_bind (reads_conditional (Eval.reads_pure _) (yes depth (by omega))
        (no depth (by omega))) (Eval.reads_pure _)
  | @extremum name function arguments first second others listed count _ _ ih =>
      obtain ⟨builtin, standard, direct, applies⟩ := Datum.gives_extremum listed
      have held := ready.extrema name (List.mem_map_of_mem listed)
      rw [standard] at held
      have proper : Text.isReserved name = false := by
        simp only [Datum.extrema, List.mem_cons, Prod.mk.injEq, List.not_mem_nil, or_false] at listed
        rcases listed with ⟨rfl, -⟩ | ⟨rfl, -⟩ <;> decide
      have callee := Pushes.name (lookup_function proper held)
      have operands := callee.append (pushes_each (List.forall₂_iff_zip.mpr ⟨count, ih _ _⟩))
      refine operands.last fun depth stack => ?_
      have popped : Eval.Reads False state (popResolved (perform (depth + 1)) frame _ _ []) _ :=
        reads_popResolved ((first :: second :: others).map Value.int).reverse []
          (.value (.builtin builtin) :: stack)
      rw [List.reverse_reverse, List.append_nil, List.length_reverse, List.length_map, ← count] at popped
      rw [List.reverse_append, List.map_append, List.append_assoc]
      refine Eval.reads_bind popped ?_
      refine Eval.reads_bind (Eval.reads_pure (Operand.value _, stack)) ?_
      refine Eval.reads_bind (Eval.reads_pure _) ?_
      exact Eval.reads_bind (reads_callTrusted (works_perform_succ depth) direct held
        (applies first second others)) (Eval.reads_pure _)

end

end Formula
