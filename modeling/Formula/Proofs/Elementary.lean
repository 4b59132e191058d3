import Formula.Proofs.Coding
import Formula.Proofs.Compilation
import Formula.Proofs.Yielding

/-!
Elementary terms: those that consist of literals, names and operators. Where such a term has come to a value,
it yields that value wherever its names are known.
-/

namespace Formula

open Recursion (Compute Part Perform ofEval)
open Machine (Frame unsigned)

namespace Term

/-- Whether a term consists of literals, names and operators: it binds, defines and calls nothing, and looks
up no member. -/
def elementary : Term → Bool
  | .literal _ | .name _ => true
  | .unary _ operand => operand.elementary
  | .binary _ left right | .shortCircuit _ left right => left.elementary && right.elementary
  | .conditional condition yes no => condition.elementary && yes.elementary && no.elementary
  | _ => false

/-- An elementary term of scalars and of names of a kind. -/
def Reads (names : Text → Prop) : Term → Prop
  | .literal value => value.isScalar = true
  | .name word => names word
  | .unary _ operand => operand.Reads names
  | .binary symbol left right | .shortCircuit symbol left right =>
    symbol ≠ assignSymbol ∧ left.Reads names ∧ right.Reads names
  | .conditional condition yes no => condition.Reads names ∧ yes.Reads names ∧ no.Reads names
  | _ => False

theorem reads_of_elementary {names : Text → Prop} (term : Term) (elementary : term.elementary = true)
    (ordinary : term.ordinary = true)
    (contents : ∀ instruction ∈ term.code.contents, (∀ value, instruction = .literal value →
      value.isScalar = true) ∧ ∀ word, instruction = .name word → names word) : term.Reads names := by
  match term with
  | .literal value => exact (contents _ List.mem_cons_self).1 value rfl
  | .name word => exact (contents _ List.mem_cons_self).2 word rfl
  | .unary _ operand =>
      refine reads_of_elementary operand elementary ordinary fun instruction member => contents _ ?_
      simp [code, Program.contents_append, member]
  | .binary symbol left right =>
      simp only [Term.elementary, Term.ordinary, Bool.and_eq_true, decide_eq_true_eq] at elementary ordinary
      refine ⟨ordinary.1.1,
        reads_of_elementary left elementary.1 ordinary.1.2 fun instruction member => contents _ ?_,
        reads_of_elementary right elementary.2 ordinary.2 fun instruction member => contents _ ?_⟩
      all_goals simp [code, Program.contents_append, member]
  | .shortCircuit symbol left right =>
      simp only [Term.elementary, Term.ordinary, Bool.and_eq_true, decide_eq_true_eq] at elementary ordinary
      refine ⟨ordinary.1.1,
        reads_of_elementary left elementary.1 ordinary.1.2 fun instruction member => contents _ ?_,
        reads_of_elementary right elementary.2 ordinary.2 fun instruction member => contents _ ?_⟩
      all_goals simp [code, Program.contents_append, Program.contents_cons, Program.contents_nested, member]
  | .conditional condition yes no =>
      simp only [Term.elementary, Term.ordinary, Bool.and_eq_true] at elementary ordinary
      refine ⟨
        reads_of_elementary condition elementary.1.1 ordinary.1.1 fun instruction member => contents _ ?_,
        reads_of_elementary yes elementary.1.2 ordinary.1.2 fun instruction member => contents _ ?_,
        reads_of_elementary no elementary.2 ordinary.2 fun instruction member => contents _ ?_⟩
      all_goals simp [code, Program.contents_append, Program.contents_cons, Program.contents_nested, member]

end Term

namespace Recursion

variable {α β : Type} {world later : World}

/-- What a computation and the next one came to. -/
theorem Compute.ok_of_bind {first : Compute α} {next : α → Compute β} {result : β}
    (came : (first >>= next) world = some (.ok result, later)) :
    ∃ value between, first world = some (.ok value, between) ∧
      next value between = some (.ok result, later) := by
  rw [bind_run] at came
  rcases found : first world with _ | ⟨_ | value, between⟩
  · rw [found] at came
    cases came
  · rw [found] at came
    cases came
  · rw [found] at came
    exact ⟨value, between, rfl, came⟩

theorem Compute.ok_of_pure {one two : α} (came : (pure one : Compute α) world = some (.ok two, later)) :
    one = two ∧ world = later := by
  cases came
  exact ⟨rfl, rfl⟩

/-- A call on scalars that gave a value gives it always, and changed nothing. -/
theorem steady_call {level : Nat} {function : Builtin} (direct : (Value.builtin function).isDirect = true)
    {operands : List Value} (scalars : ∀ operand ∈ operands, operand.isScalar = true) {value : Value}
    (came : perform level (.call (.builtin function) operands) world = some (.ok value, later)) :
    world = later ∧ value.isScalar = true ∧ ∀ heap, function.apply operands heap = .ok (value, heap) := by
  cases level with
  | zero => cases came
  | succ level =>
      have called : callBuiltin (perform level) function operands =
          ofEval (Eval.act (function.apply operands)) := by
        unfold callBuiltin
        split <;> first | rfl | cases direct
      change callBuiltin (perform level) function operands world = _ at came
      rw [called, ofEval, Eval.act_apply] at came
      cases applied : function.apply operands world.state.heap with
      | error failure =>
          rw [applied] at came
          cases came
      | ok result =>
          obtain ⟨result, heap⟩ := result
          obtain ⟨scalar, always⟩ := Simplification.steady_known scalars applied
          rw [always] at came
          cases came
          exact ⟨rfl, scalar, always⟩

theorem ok_of_ofEval {computation : Eval α} {value : α}
    (came : ofEval computation world = some (.ok value, later)) :
    ∃ state, computation world.state = some (.ok value, state) ∧ later = { world with state := state } := by
  rw [ofEval, Option.map_eq_some_iff] at came
  obtain ⟨⟨outcome, state⟩, found, same⟩ := came
  cases same
  exact ⟨state, found, rfl⟩

theorem ok_of_operator {table : Dialect → Table} {frame : Frame} {symbol : Text} {function : Value}
    (came : ofEval (Machine.operator table frame symbol) world = some (.ok function, later)) :
    world = later ∧ (table (world.state.dialect frame.dialect)).get? symbol = some function := by
  obtain ⟨state, found, rfl⟩ := ok_of_ofEval came
  simp only [Machine.operator, Eval.get_bind_apply] at found
  cases held : (table (world.state.dialect frame.dialect)).get? symbol with
  | none =>
      rw [held] at found
      cases found
  | some known =>
      rw [held] at found
      cases found
      exact ⟨rfl, rfl⟩

/-- The truth of a part, and what the part came to. -/
theorem ok_of_holds {perform : Perform} {frame : Frame} {part : Part} {met : Bool}
    (came : holds perform frame part world = some (.ok met, later)) :
    ∃ value, resolve perform frame part world = some (.ok value, later) ∧
      later.state.heap.truth value = met := by
  obtain ⟨value, between, first, rest⟩ := Compute.ok_of_bind came
  cases rest
  exact ⟨value, first, rfl⟩

section

variable {known : Entries} {one two value : Value}

/-- What `and` and `or` are on scalars. -/
theorem fact_and (scalarOne : one.isScalar = true) (scalarTwo : two.isScalar = true) (heap : Heap) :
    (knownFacts known).binary (Text.ofString "and") one two (.bool (heap.truth one && heap.truth two)) := by
  refine fun _ _ _ => ⟨rfl, .conjunction, rfl, fun other => ?_⟩
  rw [heap.truth_scalar other scalarOne, heap.truth_scalar other scalarTwo]
  rfl

theorem fact_or (scalarOne : one.isScalar = true) (scalarTwo : two.isScalar = true) (heap : Heap) :
    (knownFacts known).binary (Text.ofString "or") one two (.bool (heap.truth one || heap.truth two)) := by
  refine fun _ _ _ => ⟨rfl, .disjunction, rfl, fun other => ?_⟩
  rw [heap.truth_scalar other scalarOne, heap.truth_scalar other scalarTwo]
  rfl

/-- An operator that came to a value: the left side decided it, or the right side came to a scalar and both
give the value. -/
theorem ok_of_binary (known : Entries) {level : Nat} {frame : Frame} {symbol : Text} {right : Part}
    (operators : (world.state.dialect frame.dialect).Operates) (other : symbol ≠ Text.ofString "=")
    (scalarOne : one.isScalar = true) {good : Value → Prop}
    (each : ∀ value later, resolve (perform level) frame right world = some (.ok value, later) →
      world = later ∧ value.isScalar = true ∧ good value)
    (came : binary (perform level) frame symbol (.value one) right world = some (.ok value, later)) :
    world = later ∧
      ((∃ met, symbol = Text.ofString (if met then "or" else "and") ∧
          (knownFacts known).truth one met ∧ value = .bool met) ∨
        ∃ two, good two ∧ (knownFacts known).binary symbol one two value) := by
  have truth (met : Bool) (same : world.state.heap.truth one = met) : (knownFacts known).truth one met :=
    fun scalar heap => (heap.truth_scalar world.state.heap scalar).trans same
  unfold binary at came
  by_cases conjunction : symbol = Text.ofString "and"
  · rw [if_pos conjunction] at came
    obtain ⟨met, between, first, rest⟩ := Compute.ok_of_bind came
    obtain ⟨_, ⟨⟩, same⟩ := ok_of_holds first
    cases met with
    | false =>
        cases rest
        exact ⟨rfl, .inl ⟨false, conjunction, truth false same, rfl⟩⟩
    | true =>
        obtain ⟨last, between, second, ⟨⟩⟩ := Compute.ok_of_bind rest
        obtain ⟨two, resolved, counts⟩ := ok_of_holds second
        obtain ⟨stays, scalar, fine⟩ := each two _ resolved
        have fact := @fact_and known one two scalarOne scalar world.state.heap
        rw [← stays] at counts
        rw [same, counts] at fact
        exact ⟨stays, .inr ⟨two, fine, conjunction ▸ fact⟩⟩
  · rw [if_neg conjunction] at came
    by_cases disjunction : symbol = Text.ofString "or"
    · rw [if_pos disjunction] at came
      obtain ⟨met, between, first, rest⟩ := Compute.ok_of_bind came
      obtain ⟨_, ⟨⟩, same⟩ := ok_of_holds first
      cases met with
      | true =>
          cases rest
          exact ⟨rfl, .inl ⟨true, disjunction, truth true same, rfl⟩⟩
      | false =>
          obtain ⟨last, between, second, ⟨⟩⟩ := Compute.ok_of_bind rest
          obtain ⟨two, resolved, counts⟩ := ok_of_holds second
          obtain ⟨stays, scalar, fine⟩ := each two _ resolved
          have fact := @fact_or known one two scalarOne scalar world.state.heap
          rw [← stays] at counts
          rw [same, counts] at fact
          exact ⟨stays, .inr ⟨two, fine, disjunction ▸ fact⟩⟩
    · rw [if_neg disjunction, if_neg other] at came
      obtain ⟨function, between, looked, rest⟩ := Compute.ok_of_bind came
      obtain ⟨rfl, held⟩ := ok_of_operator looked
      rw [operators.binary] at held
      obtain ⟨_, between, kept, onward⟩ := Compute.ok_of_bind rest
      obtain ⟨rfl, rfl⟩ := Compute.ok_of_pure kept
      obtain ⟨two, between, resolved, further⟩ := Compute.ok_of_bind onward
      obtain ⟨rfl, scalar, fine⟩ := each two _ resolved
      obtain ⟨result, between, called, answered⟩ := Compute.ok_of_bind further
      obtain ⟨_, rfl, direct⟩ := direct_of_mem (.inr (.inl (List.mem_map_of_mem (Table.mem_of_get? held))))
      obtain ⟨rfl, scalarResult, always⟩ := steady_call direct
        (List.forall_mem_cons.mpr ⟨scalarOne, List.forall_mem_singleton.mpr scalar⟩) called
      have last : value = result ∧ later = world := by
        split at answered
        · obtain ⟨_, between, guarded, ⟨⟩⟩ := Compute.ok_of_bind answered
          obtain ⟨state, passed, rfl⟩ := ok_of_ofEval guarded
          rw [Eval.guardAgainst_apply, Value.isCallable_scalar scalarResult] at passed
          cases passed
          exact ⟨rfl, rfl⟩
        · cases answered
          exact ⟨rfl, rfl⟩
      obtain ⟨rfl, rfl⟩ := last
      exact ⟨rfl, .inr ⟨two, fine, fun _ _ _ => ⟨scalarResult, _, held, always⟩⟩⟩

end

end Recursion

namespace Term.Yields

open Recursion

variable {known : Entries} {frame : Frame} {level : Nat} {world later : World}

/-- What is deferred was worked out one level deeper. -/
theorem of_run {term : Term} {value : Value}
    (each : ∀ level part later, Recursion.part (perform level) frame term world = some (.ok part, later) →
      world = later ∧ ∃ value, part = .value value ∧ Yields known (level + 1) term value)
    (came : perform level (.run frame.dialect (.whole term) frame.scope) world = some (.ok value, later)) :
    world = later ∧ ∃ result, value = unsigned result ∧ Yields known level term result := by
  cases level with
  | zero => cases came
  | succ level =>
      obtain ⟨part, between, first, rest⟩ := Compute.ok_of_bind came
      obtain ⟨rfl, result, rfl, yields⟩ := each level part between first
      cases rest
      exact ⟨rfl, result, rfl, yields⟩

/-- An elementary term that came to a value yields it, and changed nothing. -/
theorem of_part (operators : (world.state.dialect frame.dialect).Operates)
    (scalars : ∀ name value, named known name = some value → value.isScalar = true)
    (term : Term) (reads : term.Reads fun word => ∃ value, named known word = some value ∧
      Machine.lookup frame word world.state = some (.ok value, world.state))
    (level : Nat) (part : Recursion.Part) (later : World)
    (came : Recursion.part (perform level) frame term world = some (.ok part, later)) :
    world = later ∧ ∃ value, part = .value value ∧ Yields known (level + 1) term value := by
  match term with
  | .literal value =>
      cases came
      exact ⟨rfl, value, rfl, .literal reads⟩
  | .name word =>
      obtain ⟨value, held, found⟩ := reads
      obtain ⟨result, between, first, rest⟩ := Compute.ok_of_bind came
      obtain ⟨state, looked, rfl⟩ := ok_of_ofEval first
      rw [found] at looked
      cases looked
      cases rest
      exact ⟨rfl, value, rfl, .name held⟩
  | .unary symbol operand =>
      obtain ⟨part, between, first, rest⟩ := Compute.ok_of_bind came
      obtain ⟨rfl, value, rfl, yields⟩ := of_part operators scalars operand reads level part between first
      obtain ⟨function, between, looked, onward⟩ := Compute.ok_of_bind rest
      obtain ⟨rfl, held⟩ := ok_of_operator looked
      rw [operators.unary] at held
      obtain ⟨_, between, kept, further⟩ := Compute.ok_of_bind onward
      obtain ⟨rfl, rfl⟩ := Compute.ok_of_pure kept
      obtain ⟨result, between, called, last⟩ := Compute.ok_of_bind further
      obtain ⟨rfl, rfl⟩ := Compute.ok_of_pure last
      obtain ⟨_, rfl, direct⟩ := direct_of_mem (.inl (List.mem_map_of_mem (Table.mem_of_get? held)))
      obtain ⟨rfl, scalar, always⟩ := steady_call direct
        (List.forall_mem_singleton.mpr (yields.scalar scalars)) called
      exact ⟨rfl, result, rfl, .unary yields fun _ => ⟨scalar, _, held, always⟩⟩
  | .binary symbol left right =>
      obtain ⟨other, readsLeft, readsRight⟩ := reads
      obtain ⟨part, between, first, rest⟩ := Compute.ok_of_bind came
      obtain ⟨rfl, one, rfl, yieldsOne⟩ := of_part operators scalars left readsLeft level part between first
      obtain ⟨part, between, second, onward⟩ := Compute.ok_of_bind rest
      obtain ⟨rfl, two, rfl, yieldsTwo⟩ := of_part operators scalars right readsRight level part between second
      obtain ⟨result, between, joined, last⟩ := Compute.ok_of_bind onward
      obtain ⟨rfl, rfl⟩ := Compute.ok_of_pure last
      have scalarOne := yieldsOne.scalar scalars
      have scalarTwo := yieldsTwo.scalar scalars
      obtain ⟨rfl, decided | ⟨_, rfl, fact⟩⟩ := @ok_of_binary _ _ _ _ known _ _ _ _ operators other scalarOne
        (· = two) (fun value later came => by
          obtain ⟨rfl, rfl⟩ := Compute.ok_of_pure came
          exact ⟨rfl, scalarTwo, rfl⟩) joined
      · -- The right side was there already, whatever the left one decided.
        obtain ⟨met, rfl, fact, rfl⟩ := decided
        refine ⟨rfl, _, rfl, .binary other yieldsOne yieldsTwo ?_⟩
        have same := fact scalarOne world.state.heap
        cases met with
        | true =>
            have joined := @fact_or known one two scalarOne scalarTwo world.state.heap
            rwa [same, Bool.true_or] at joined
        | false =>
            have joined := @fact_and known one two scalarOne scalarTwo world.state.heap
            rwa [same, Bool.false_and] at joined
      · exact ⟨rfl, result, rfl, .binary other yieldsOne yieldsTwo fact⟩
  | .shortCircuit symbol left right =>
      obtain ⟨other, readsLeft, readsRight⟩ := reads
      obtain ⟨part, between, first, rest⟩ := Compute.ok_of_bind came
      obtain ⟨rfl, one, rfl, yieldsOne⟩ := of_part operators scalars left readsLeft level part between first
      obtain ⟨result, between, joined, last⟩ := Compute.ok_of_bind rest
      obtain ⟨rfl, rfl⟩ := Compute.ok_of_pure last
      obtain ⟨rfl, decided | ⟨_, ⟨two, rfl, yieldsTwo⟩, fact⟩⟩ :=
        @ok_of_binary _ _ _ _ known _ _ _ _ operators other (yieldsOne.scalar scalars)
          (fun value => ∃ two, value = unsigned two ∧ Yields known level right two) (fun value later came => by
            obtain ⟨rfl, two, rfl, yields⟩ := of_run (of_part operators scalars right readsRight) came
            exact ⟨rfl, Machine.isScalar_unsigned (yields.scalar scalars), two, rfl, yields⟩) joined
      · obtain ⟨met, same, fact, rfl⟩ := decided
        exact ⟨rfl, _, rfl, .decided same yieldsOne fact⟩
      · exact ⟨rfl, result, rfl, .shortCircuit other yieldsOne yieldsTwo fact⟩
  | .conditional condition yes no =>
      obtain ⟨readsCondition, readsYes, readsNo⟩ := reads
      obtain ⟨part, between, first, rest⟩ := Compute.ok_of_bind came
      obtain ⟨rfl, one, rfl, yieldsOne⟩ :=
        of_part operators scalars condition readsCondition level part between first
      obtain ⟨met, between, second, onward⟩ := Compute.ok_of_bind rest
      obtain ⟨value, resolved, counts⟩ := ok_of_holds second
      obtain ⟨rfl, rfl⟩ := Compute.ok_of_pure resolved
      obtain ⟨result, between, chosen, last⟩ := Compute.ok_of_bind onward
      obtain ⟨rfl, rfl⟩ := Compute.ok_of_pure last
      have fact : (knownFacts known).truth one met :=
        fun scalar heap => (heap.truth_scalar world.state.heap scalar).trans counts
      have each (level : Nat) (part : Recursion.Part) (later : World) :
          Recursion.part (perform level) frame (if met then yes else no) world = some (.ok part, later) →
            world = later ∧ ∃ value, part = .value value ∧
              Yields known (level + 1) (if met then yes else no) value := by
        cases met with
        | true => exact of_part operators scalars yes readsYes level part later
        | false => exact of_part operators scalars no readsNo level part later
      obtain ⟨rfl, two, rfl, yieldsTwo⟩ := of_run each chosen
      exact ⟨rfl, _, rfl, .conditional yieldsOne fact yieldsTwo⟩

end Term.Yields

end Formula
