import Formula.Proofs.Knowledge
import Formula.Proofs.Recursion

/-!
Terms that come to a scalar wherever some names are known: they change nothing, and all they need besides
is fuel.
-/

namespace Formula

open Recursion (Compute Part Perform ofEval)
open Machine (Frame unsigned)

/-- A term that comes to a scalar while some names are known, with tasks inside each other up to a depth. -/
inductive Term.Yields (known : Entries) : Nat → Term → Value → Prop
  | literal {depth : Nat} {value : Value} (scalar : value.isScalar = true) :
      Yields known depth (.literal value) value
  | name {depth : Nat} {word : Text} {value : Value} (held : named known word = some value) :
      Yields known depth (.name word) value
  | unary {depth : Nat} {symbol : Text} {operand : Term} {value result : Value}
      (yields : Yields known (depth + 1) operand value)
      (fact : (knownFacts known).unary symbol value result) :
      Yields known (depth + 1) (.unary symbol operand) result
  | binary {depth : Nat} {symbol : Text} {left right : Term} {one two result : Value}
      (other : symbol ≠ Term.assignSymbol) (yieldsLeft : Yields known (depth + 1) left one)
      (yieldsRight : Yields known (depth + 1) right two)
      (fact : (knownFacts known).binary symbol one two result) :
      Yields known (depth + 1) (.binary symbol left right) result
  | shortCircuit {depth : Nat} {symbol : Text} {left right : Term} {one two result : Value}
      (other : symbol ≠ Term.assignSymbol) (yieldsLeft : Yields known (depth + 1) left one)
      (yieldsRight : Yields known depth right two)
      (fact : (knownFacts known).binary symbol one (unsigned two) result) :
      Yields known (depth + 1) (.shortCircuit symbol left right) result
  /-- The left side of `and` or `or` decides. -/
  | decided {depth : Nat} {symbol : Text} {left right : Term} {one : Value} {met : Bool}
      (decides : symbol = Text.ofString (if met then "or" else "and"))
      (yields : Yields known (depth + 1) left one) (fact : (knownFacts known).truth one met) :
      Yields known (depth + 1) (.shortCircuit symbol left right) (.bool met)
  | conditional {depth : Nat} {condition yes no : Term} {one two : Value} {met : Bool}
      (yields : Yields known (depth + 1) condition one) (fact : (knownFacts known).truth one met)
      (chosen : Yields known depth (if met then yes else no) two) :
      Yields known (depth + 1) (.conditional condition yes no) (unsigned two)
  | member {depth : Nat} {object : Term} {word : Text} {value result : Value}
      (yields : Yields known depth object value) (fact : (knownFacts known).member value word result) :
      Yields known depth (.member object word) result

theorem Machine.isScalar_unsigned {value : Value} (scalar : value.isScalar = true) :
    (unsigned value).isScalar = true := by
  cases value <;> first | rfl | cases scalar

/-- A scalar passes the test of trust. -/
theorem Eval.reads_guard {spent : Prop} {state : State} {dialect : Nat} (cause : SecurityCause)
    {value : Value} (scalar : value.isScalar = true) :
    Eval.Reads spent state (Eval.guardAgainst cause dialect value) () := by
  refine .inl ?_
  rw [Eval.guardAgainst_apply, Value.isCallable_scalar scalar]
  rfl

namespace Recursion

variable {α β : Type} {spent : Prop} {world : World}

/-- A computation that leaves the world as it is and gives a result, unless its fuel may be spent. -/
def Compute.Reads (spent : Prop) (world : World) (computation : Compute α) (result : α) : Prop :=
  computation world = some (.ok result, world) ∨ spent ∧ computation world = none

namespace Compute

theorem reads_pure (result : α) : Reads spent world (pure result) result := .inl rfl

theorem reads_bind {first : Compute α} {next : α → Compute β} {between : α} {result : β}
    (before : Reads spent world first between) (after : Reads spent world (next between) result) :
    Reads spent world (first >>= next) result := by
  rcases before with came | ⟨empty, came⟩
  · rcases after with last | ⟨empty, last⟩
    · exact .inl (by rw [bind_run, came]; exact last)
    · exact .inr ⟨empty, by rw [bind_run, came]; exact last⟩
  · exact .inr ⟨empty, by rw [bind_run, came]⟩

theorem reads_get {next : World → Compute β} {result : β}
    (after : Reads spent world (next world) result) : Reads spent world (get >>= next) result :=
  reads_bind (.inl rfl) after

theorem reads_ofEval {computation : Eval α} {result : α}
    (reads : Eval.Reads spent world.state computation result) :
    Reads spent world (ofEval computation) result := by
  refine reads.imp (fun came => ?_) fun ⟨empty, came⟩ => ⟨empty, ?_⟩
  · rw [ofEval, came]
    rfl
  · rw [ofEval, came]
    rfl

end Compute

open Compute

section

variable {known : Entries} {frame : Frame}

/-- The call of a function that gives the same value on every heap. -/
theorem reads_call (depth level : Nat) {function : Builtin}
    (direct : (Value.builtin function).isDirect = true) {operands : List Value} {value : Value}
    (always : ∀ heap, function.apply operands heap = .ok (value, heap)) :
    Reads (level < depth + 1) world (perform level (.call (.builtin function) operands)) value := by
  cases level with
  | zero => exact .inr ⟨Nat.succ_pos depth, rfl⟩
  | succ level =>
      have called : callBuiltin (perform level) function operands =
          ofEval (Eval.act (function.apply operands)) := by
        unfold callBuiltin
        split <;> first | rfl | cases direct
      refine .inl ?_
      change callBuiltin (perform level) function operands world = _
      rw [called, ofEval, Eval.act_apply, always]
      rfl

/-- What is deferred is worked out one level deeper. -/
theorem reads_deferred {depth level : Nat} {term : Term} {value : Value}
    (reads : ∀ level, Reads (level < depth) world (part (perform level) frame term) (.value value)) :
    Reads (level < depth + 1) world (perform level (.run frame.dialect (.whole term) frame.scope))
      (unsigned value) := by
  cases level with
  | zero => exact .inr ⟨Nat.succ_pos depth, rfl⟩
  | succ level =>
      have inner : Reads (level + 1 < depth + 1) world (part (perform level) frame term) (.value value) :=
        (reads level).imp_right (And.imp_left Nat.succ_lt_succ)
      exact reads_bind inner (reads_bind (reads_pure value) (reads_pure _))

theorem reads_operator {table : Dialect → Table} {symbol : Text} {function : Value}
    (held : (table (world.state.dialect frame.dialect)).get? symbol = some function) :
    Reads spent world (ofEval (Machine.operator table frame symbol)) function :=
  reads_ofEval (Machine.reads_operator held)

/-- A scalar that is known to be met or not. -/
theorem reads_holds {level : Nat} {value : Value} {met : Bool}
    (truth : world.state.heap.truth value = met) :
    Reads spent world (holds (perform level) frame (.value value)) met := by
  subst truth
  exact reads_bind (reads_pure value) (reads_get (reads_pure _))

/-- Both sides of an operator that is no assignment are at hand, or come to scalars when they are asked
for. -/
theorem reads_binary (knows : Machine.Knows known frame world.state) {depth level : Nat}
    {symbol : Text} {left right : Part} {one two value : Value} (other : symbol ≠ Text.ofString "=")
    (readsLeft : Reads (level < depth + 1) world (resolve (perform level) frame left) one)
    (readsRight : Reads (level < depth + 1) world (resolve (perform level) frame right) two)
    (scalarLeft : one.isScalar = true) (scalarRight : two.isScalar = true)
    (fact : (knownFacts known).binary symbol one two value) :
    Reads (level < depth + 1) world (binary (perform level) frame symbol left right) value := by
  obtain ⟨scalar, function, held, always⟩ := fact other scalarLeft scalarRight
  obtain ⟨_, ⟨⟩, direct⟩ :=
    direct_of_mem (.inr (.inl (List.mem_map_of_mem (Table.mem_of_get? held))))
  have met {part : Part} {value : Value}
      (reads : Reads (level < depth + 1) world (resolve (perform level) frame part) value) :
      Reads (level < depth + 1) world (holds (perform level) frame part) (world.state.heap.truth value) :=
    reads_bind reads (reads_get (reads_pure _))
  unfold binary
  by_cases conjunction : symbol = Text.ofString "and"
  · subst conjunction
    cases held
    have same : value = .bool (world.state.heap.truth one && world.state.heap.truth two) := by
      have came := always world.state.heap
      cases came
      rfl
    rw [if_pos rfl, same]
    refine reads_bind (met readsLeft) ?_
    cases world.state.heap.truth one with
    | true => exact reads_bind (met readsRight) (reads_pure _)
    | false => exact reads_pure _
  · rw [if_neg conjunction]
    by_cases disjunction : symbol = Text.ofString "or"
    · subst disjunction
      cases held
      have same : value = .bool (world.state.heap.truth one || world.state.heap.truth two) := by
        have came := always world.state.heap
        cases came
        rfl
      rw [if_pos rfl, same]
      refine reads_bind (met readsLeft) ?_
      cases world.state.heap.truth one with
      | true => exact reads_pure _
      | false => exact reads_bind (met readsRight) (reads_pure _)
    · rw [if_neg disjunction, if_neg other]
      rw [← knows.operators.binary] at held
      refine reads_bind (reads_operator held) ?_
      refine reads_bind readsLeft ?_
      refine reads_bind readsRight ?_
      refine reads_bind (reads_call depth level direct always) ?_
      split
      · exact reads_bind (reads_ofEval (Eval.reads_guard .element scalar)) (reads_pure value)
      · exact reads_pure value

end

end Recursion

namespace Term.Yields

open Recursion Compute

variable {known : Entries} {depth : Nat} {term : Term} {value : Value}

theorem scalar (yields : Yields known depth term value)
    (scalars : ∀ name value, named known name = some value → value.isScalar = true) :
    value.isScalar = true := by
  induction yields with
  | literal scalar => exact scalar
  | name held => exact scalars _ _ held
  | unary _ fact ih => exact (fact ih).1
  | binary other _ _ fact ihLeft ihRight => exact (fact other ihLeft ihRight).1
  | shortCircuit other _ _ fact ihLeft ihRight =>
      exact (fact other ihLeft (Machine.isScalar_unsigned ihRight)).1
  | decided => rfl
  | conditional _ _ _ _ ih => exact Machine.isScalar_unsigned ih
  | member _ fact ih => exact (fact ih).1

/-- Wherever the names are known, the term comes to its value and changes nothing, given the fuel. -/
theorem reads {world : World} {frame : Frame} (yields : Yields known depth term value)
    (scalars : ∀ name value, named known name = some value → value.isScalar = true)
    (knows : Machine.Knows known frame world.state) (level : Nat) :
    Reads (level < depth) world (part (perform level) frame term) (.value value) := by
  induction yields generalizing level with
  | literal => exact reads_pure _
  | name held =>
      exact reads_bind (reads_ofEval (.inl (knows.names _ _ held))) (reads_pure _)
  | unary yields fact ih =>
      obtain ⟨-, function, held, always⟩ := fact (yields.scalar scalars)
      obtain ⟨_, ⟨⟩, direct⟩ := direct_of_mem (.inl (List.mem_map_of_mem (Table.mem_of_get? held)))
      rw [← knows.operators.unary] at held
      refine reads_bind (ih level) (reads_bind (reads_operator held) ?_)
      refine reads_bind (reads_pure _) ?_
      exact reads_bind (reads_call _ level direct always) (reads_pure _)
  | binary other yieldsLeft yieldsRight fact ihLeft ihRight =>
      refine reads_bind (ihLeft level) (reads_bind (ihRight level) ?_)
      exact reads_bind (reads_binary knows other (reads_pure _) (reads_pure _)
        (yieldsLeft.scalar scalars) (yieldsRight.scalar scalars) fact) (reads_pure _)
  | shortCircuit other yieldsLeft yieldsRight fact ihLeft ihRight =>
      refine reads_bind (ihLeft level) ?_
      exact reads_bind (reads_binary knows other (reads_pure _) (reads_deferred ihRight)
        (yieldsLeft.scalar scalars) (Machine.isScalar_unsigned (yieldsRight.scalar scalars)) fact)
        (reads_pure _)
  | @decided _ symbol left right one met decides yields fact ih =>
      have truth := fact (yields.scalar scalars) world.state.heap
      refine reads_bind (ih level) (reads_bind ?_ (reads_pure _))
      subst decides
      cases met with
      | true => exact reads_bind (Recursion.reads_holds truth) (reads_pure _)
      | false => exact reads_bind (Recursion.reads_holds truth) (reads_pure _)
  | @conditional _ condition yes no one two met yields fact chosen ih ihChosen =>
      have truth := fact (yields.scalar scalars) world.state.heap
      refine reads_bind (ih level) (reads_bind (Recursion.reads_holds truth) ?_)
      exact reads_bind (reads_deferred ihChosen) (reads_pure _)
  | @member depth object word value result yields fact ih =>
      obtain ⟨scalarValue, reserved, always⟩ := fact (yields.scalar scalars)
      have given : Eval.Reads (level < depth) world.state (Machine.readMember frame value word) result := by
        unfold Machine.readMember
        rw [reserved]
        refine Eval.reads_get ?_
        rw [always]
        exact Eval.reads_bind (Eval.reads_guard .member scalarValue) (Eval.reads_pure result)
      refine reads_bind (ih level) (reads_bind (reads_pure value) ?_)
      exact reads_bind (reads_ofEval given) (reads_pure _)

end Term.Yields

end Formula
