import Formula.Proofs.Binding
import Formula.Proofs.Contents
import Formula.Proofs.Rewriting

/-!
What simplification knows, and that it is so: on scalars the standard operators give the same value
whenever they are asked, so that a stretch of instructions that was folded comes to its value.
-/

namespace Formula

open Machine

/-- Whether a value is a built-in function that calls no other and draws no random number. -/
def Value.isDirect : Value → Bool
  | .builtin .map | .builtin .filter | .builtin .fold | .builtin .random => false
  | .builtin _ => true
  | _ => false

theorem callBuiltin_direct {function : Builtin} (direct : (Value.builtin function).isDirect = true)
    (perform : Perform) (arguments : List Value) :
    callBuiltin perform function arguments = Eval.act (function.apply arguments) := by
  unfold callBuiltin
  split
  · cases direct
  · cases direct
  · cases direct
  · cases direct
  · cases direct
  · rfl

/-- A dialect with the standard operators. -/
structure Dialect.Operates (dialect : Dialect) : Prop where
  unary : dialect.unary = standardUnary
  binary : dialect.binary = standardBinary
  ternary : dialect.ternary = standardTernary

theorem Dialect.operates_standard (options : Options) : (Dialect.standard options).Operates :=
  ⟨rfl, rfl, rfl⟩

theorem direct_of_mem {function : Value}
    (member : function ∈ standardUnary.map (·.2) ∨ function ∈ standardBinary.map (·.2) ∨
      function ∈ standardTernary.map (·.2)) :
    ∃ builtin, function = .builtin builtin ∧ function.isDirect = true := by
  have direct : function.isDirect = true := by
    rcases member with inside | inside | inside
    · exact (by decide : ∀ value ∈ standardUnary.map (·.2), value.isDirect = true) _ inside
    · exact (by decide : ∀ value ∈ standardBinary.map (·.2), value.isDirect = true) _ inside
    · exact (by decide : ∀ value ∈ standardTernary.map (·.2), value.isDirect = true) _ inside
  cases function with
  | builtin builtin => exact ⟨builtin, rfl, direct⟩
  | _ => cases direct

/-- A name that stands neither for a function nor for an operator means what its scope binds it to. -/
theorem Machine.lookup_plain {frame : Frame} {name : Text} {value : Value} {state : State}
    (proper : Text.isReserved name = false)
    (unnamed : (state.dialect frame.dialect).functions.get? name = none)
    (operators : (state.dialect frame.dialect).unary.get? name = none ∨
      (state.dialect frame.dialect).enables name = false)
    (held : named (state.heap.entries frame.scope) name = some value) (plain : value.isCallable = false) :
    lookup frame name state = some (.ok value, state) := by
  unfold lookup
  rw [proper]
  simp only [Bool.false_eq_true, if_false, Eval.get_bind_apply, unnamed, Heap.lookup_text, held]
  have given : (do Eval.guardAgainst (.variable name) frame.dialect value; return value : Eval Value)
      state = some (.ok value, state) := by
    rw [Eval.bind_apply, Eval.guardAgainst_apply, plain]
    rfl
  rcases operators with absent | disabled
  · simpa [absent] using given
  · simpa [disabled] using given

theorem Machine.lookup_named {frame : Frame} {name : Text} {value : Value} {state : State}
    (proper : Text.isReserved name = false)
    (unnamed : (state.dialect frame.dialect).functions.get? name = none)
    (operators : (state.dialect frame.dialect).unary.get? name = none ∨
      (state.dialect frame.dialect).enables name = false)
    (held : named (state.heap.entries frame.scope) name = some value) (scalar : value.isScalar = true) :
    lookup frame name state = some (.ok value, state) :=
  lookup_plain proper unnamed operators held (Value.isCallable_scalar scalar)

/-- What is known when some names are: standard operators on scalars give what they gave once. -/
def knownFacts (values : Entries) : Facts where
  name word value := named values word = some value
  unary symbol operand value := operand.isScalar = true → value.isScalar = true ∧
    ∃ function, standardUnary.get? symbol = some (.builtin function) ∧
      ∀ heap, function.apply [operand] heap = .ok (value, heap)
  binary symbol left right value := symbol ≠ Text.ofString "=" → left.isScalar = true →
    right.isScalar = true → value.isScalar = true ∧
      ∃ function, standardBinary.get? symbol = some (.builtin function) ∧
        ∀ heap, function.apply [left, right] heap = .ok (value, heap)
  truth condition met := condition.isScalar = true → ∀ heap : Heap, heap.truth condition = met
  ternary symbol first _ _ _ := symbol ≠ Text.ofString "?" → first.isScalar = false
  member object word value := object.isScalar = true → value.isScalar = true ∧
    Text.isReserved word = false ∧ ∀ heap : Heap, heap.member object word = .value value

namespace Simplification

variable {dialect depth : Nat} {values : Entries} {state after : State}

/-- An operator that gave a value is an entry of its table, and changed nothing but the heap. -/
theorem applyOperator_ok {table : Dialect → Table}
    (kind : ∀ function ∈ (table (state.dialect dialect)).map (·.2),
      function ∈ standardUnary.map (·.2) ∨ function ∈ standardBinary.map (·.2) ∨
        function ∈ standardTernary.map (·.2))
    {symbol : Text} {operands : List Value} {value : Value}
    (found : applyOperator (perform depth) dialect table symbol operands state =
      some (.ok value, after)) :
    ∃ function heap, (table (state.dialect dialect)).get? symbol = some (.builtin function) ∧
      function.apply operands state.heap = .ok (value, heap) ∧
      after = { state with heap := heap } := by
  simp only [applyOperator, Eval.get_bind_apply] at found
  cases held : (table (state.dialect dialect)).get? symbol with
  | none =>
      rw [held] at found
      cases found
  | some function =>
      rw [held] at found
      obtain ⟨builtin, rfl, direct⟩ :=
        direct_of_mem (kind _ (List.mem_map_of_mem (Table.mem_of_get? held)))
      cases depth with
      | zero => cases found
      | succ depth =>
          have called : callBuiltin (perform depth) builtin operands state =
            some (.ok value, after) := found
          rw [callBuiltin_direct direct, Eval.act_apply] at called
          split at called
          · rename_i result heap came
            cases called
            exact ⟨builtin, heap, rfl, came, rfl⟩
          · cases called

theorem steady_known {function : Builtin} {operands : List Value} {heap after : Heap} {value : Value}
    (scalars : ∀ operand ∈ operands, operand.isScalar = true)
    (came : function.apply operands heap = .ok (value, after)) :
    value.isScalar = true ∧ ∀ other, function.apply operands other = .ok (value, other) := by
  obtain ⟨outcome, gives, same⟩ := function.steady_apply scalars
  rw [same] at came
  cases outcome with
  | error failure => cases came
  | ok result =>
      cases came
      exact ⟨gives value rfl, same⟩

theorem learns_known (depth dialect : Nat) (values : Entries) :
    Learns (perform depth) dialect values (knownFacts values)
      fun state => (state.dialect dialect).Operates where
  name {state word value} _ found := by
    rw [known?, Heap.lookup_text] at found
    exact (Option.filter_eq_some_iff.mp found).1
  unary {state after symbol operand value} standard found := by
    obtain ⟨function, heap, held, came, rfl⟩ := applyOperator_ok
      (fun _ member => .inl (standard.unary ▸ member)) found
    rw [standard.unary] at held
    refine ⟨fun scalar => ?_, standard⟩
    obtain ⟨scalarValue, always⟩ := steady_known (by simpa using scalar) came
    exact ⟨scalarValue, function, held, always⟩
  binary {state after symbol left right value} standard found := by
    obtain ⟨function, heap, held, came, rfl⟩ := applyOperator_ok
      (fun _ member => .inr (.inl (standard.binary ▸ member))) found
    rw [standard.binary] at held
    refine ⟨fun _ scalarLeft scalarRight => ?_, standard⟩
    obtain ⟨scalarValue, always⟩ := steady_known (by simp [scalarLeft, scalarRight]) came
    exact ⟨scalarValue, function, held, always⟩
  truth {state} value _ scalar heap := heap.truth_scalar state.heap scalar
  ternary {state after symbol first second third value} standard found := by
    obtain ⟨function, heap, held, came, rfl⟩ := applyOperator_ok
      (fun _ member => .inr (.inr (standard.ternary ▸ member))) found
    rw [standard.ternary] at held
    refine ⟨fun other => ?_, standard⟩
    have member := Table.mem_of_get? held
    simp only [standardTernary, Table.ofBuiltins, List.map_cons, List.map_nil, List.mem_cons,
      List.not_mem_nil, or_false, Prod.mk.injEq, Value.builtin.injEq] at member
    rcases member with ⟨choice, -⟩ | ⟨-, rfl⟩
    · exact absurd choice other
    · cases first <;> first | rfl | cases came
  member {state object word value} _ reserved found _ scalar :=
    ⟨Heap.isScalar_member scalar found, reserved,
      fun heap => (heap.member_scalar state.heap scalar word).trans found⟩

end Simplification

/-- A stretch that was folded comes to a scalar. -/
theorem Comes.scalar {values : Entries} {stretch : Program} {value : Value}
    (comes : Comes (knownFacts values) stretch value) (plain : stretch.Plain)
    (scalars : ∀ name value, named values name = some value → value.isScalar = true)
    {shapes result : List Shape} (scanned : scan stretch shapes = some result) :
    value.isScalar = true := by
  induction comes generalizing shapes result with
  | literal value => exact plain value List.mem_cons_self
  | @name word value known => exact scalars word value known
  | unary constant known ih =>
      obtain ⟨between, lower, first, -, -⟩ := scan_last scanned
      exact (known (ih plain.left first)).1
  | @binary symbol _ _ _ _ _ constantLeft constantRight known ihLeft ihRight =>
      obtain ⟨between, lower, operands, taken, -⟩ := scan_last scanned
      obtain ⟨⟨_, first⟩, ⟨_, second⟩, rfl⟩ := constantLeft.scanned_pair constantRight operands
      -- An assignment would take a program, which no known value is.
      have other : symbol ≠ Text.ofString "=" := by
        rintro rfl
        cases taken
      exact (known other (ihLeft plain.left.left first) (ihRight plain.left.right second)).1
  | @choose first second third condition yes no value met constantCondition constantYes constantNo
      known chosen ihCondition ihYes ihNo =>
      obtain ⟨between, lower, operands, -, -⟩ := scan_last scanned
      rw [scan_append, Option.bind_eq_some_iff] at operands
      obtain ⟨_, pair, third⟩ := operands
      obtain ⟨-, ⟨_, second⟩, rfl⟩ := constantCondition.scanned_pair constantYes pair
      subst chosen
      cases met with
      | true => exact ihYes plain.left.left.right second
      | false => exact ihNo plain.left.right third
  | ternary other constantFirst constantSecond _ known ihFirst =>
      obtain ⟨between, lower, operands, -, -⟩ := scan_last scanned
      rw [scan_append, Option.bind_eq_some_iff] at operands
      obtain ⟨_, pair, -⟩ := operands
      obtain ⟨⟨_, first⟩, -, -⟩ := constantFirst.scanned_pair constantSecond pair
      have scalar := ihFirst plain.left.left.left first
      rw [known other] at scalar
      cases scalar
  | member constant known ih =>
      obtain ⟨between, lower, first, -, -⟩ := scan_last scanned
      exact (known (ih plain.left first)).1

/-- A computation that leaves the state as it is and gives a result, unless its fuel may be spent. -/
def Eval.Reads {α : Type} (spent : Prop) (state : State) (computation : Eval α) (result : α) : Prop :=
  computation state = some (.ok result, state) ∨ spent ∧ computation state = none

namespace Eval

variable {α β : Type} {spent : Prop} {state : State}

theorem reads_pure (result : α) : Reads spent state (pure result) result := .inl rfl

theorem reads_bind {first : Eval α} {next : α → Eval β} {between : α} {result : β}
    (before : Reads spent state first between) (after : Reads spent state (next between) result) :
    Reads spent state (first >>= next) result := by
  rcases before with came | ⟨empty, came⟩
  · rcases after with last | ⟨empty, last⟩
    · exact .inl (by rw [bind_apply, came]; exact last)
    · exact .inr ⟨empty, by rw [bind_apply, came]; exact last⟩
  · exact .inr ⟨empty, by rw [bind_apply, came]⟩

theorem reads_get {next : State → Eval β} {result : β}
    (after : Reads spent state (next state) result) : Reads spent state (get >>= next) result :=
  reads_bind (.inl rfl) after

end Eval

namespace Machine

/-- A way to answer requests that calls the functions behind operators, unless its fuel is spent. -/
def Works (spent : Prop) (answers : Perform) : Prop :=
  ∀ function arguments state, (Value.builtin function).isDirect = true →
    answers (.call (.builtin function) arguments) state =
        Eval.act (function.apply arguments) state ∨
      spent ∧ answers (.call (.builtin function) arguments) state = none

theorem works_perform (depth : Nat) : Works True (perform depth) := by
  intro function arguments state direct
  cases depth with
  | zero => exact .inr ⟨trivial, rfl⟩
  | succ depth => exact .inl (congrFun (callBuiltin_direct direct (perform depth) arguments) state)

theorem works_perform_succ (depth : Nat) : Works False (perform (depth + 1)) :=
  fun _ arguments state direct =>
    .inl (congrFun (callBuiltin_direct direct (perform depth) arguments) state)

/-- A state in which the operators of a frame are the standard ones, and known names are bound to what
is known of them. -/
structure Knows (values : Entries) (frame : Frame) (state : State) : Prop where
  operators : (state.dialect frame.dialect).Operates
  names : ∀ name value, named values name = some value →
    lookup frame name state = some (.ok value, state)

section

variable {values : Entries} {frame : Frame} {state : State} {spent : Prop} {answers : Perform}
  (knows : Knows values frame state) (works : Works spent answers)

include knows works

omit knows works in
theorem reads_operator {table : Dialect → Table} {symbol : Text} {function : Value}
    (held : (table (state.dialect frame.dialect)).get? symbol = some function) :
    Eval.Reads spent state (operator table frame symbol) function :=
  Eval.reads_get (by rw [held]; exact Eval.reads_pure function)

omit knows in
/-- A function that gives the same value on every heap gives it when it is called. -/
theorem reads_call {function : Builtin} {operands : List Value} {value : Value}
    (direct : (Value.builtin function).isDirect = true)
    (always : ∀ heap, function.apply operands heap = .ok (value, heap)) :
    Eval.Reads spent state (answers (.call (.builtin function) operands)) value := by
  refine (works function operands state direct).imp_left fun came => ?_
  rw [came, Eval.act_apply, always]

theorem reads_unary {symbol : Text} {operand value : Value} (scalar : operand.isScalar = true)
    (known : (knownFacts values).unary symbol operand value) (stack : Stack) :
    Eval.Reads spent state (step answers frame (.unary symbol) (.value operand :: stack))
      (.value value :: stack) := by
  obtain ⟨-, function, held, always⟩ := known scalar
  obtain ⟨_, ⟨⟩, direct⟩ := direct_of_mem (.inl (List.mem_map_of_mem (Table.mem_of_get? held)))
  rw [← knows.operators.unary] at held
  refine Eval.reads_bind (Eval.reads_pure (Operand.value operand, stack)) ?_
  refine Eval.reads_bind (reads_operator held) ?_
  refine Eval.reads_bind (Eval.reads_pure operand) ?_
  exact Eval.reads_bind (reads_call works direct always) (Eval.reads_pure _)

theorem reads_binary {symbol : Text} {left right value : Value} (other : symbol ≠ Text.ofString "=")
    (scalarLeft : left.isScalar = true) (scalarRight : right.isScalar = true)
    (known : (knownFacts values).binary symbol left right value) (stack : Stack) :
    Eval.Reads spent state
      (step answers frame (.binary symbol) (.value right :: .value left :: stack))
      (.value value :: stack) := by
  obtain ⟨scalar, function, held, always⟩ := known other scalarLeft scalarRight
  obtain ⟨_, ⟨⟩, direct⟩ :=
    direct_of_mem (.inr (.inl (List.mem_map_of_mem (Table.mem_of_get? held))))
  have met (value : Value) :
      Eval.Reads spent state (holds answers frame (.value value)) (state.heap.truth value) :=
    Eval.reads_bind (Eval.reads_pure value) (Eval.reads_get (Eval.reads_pure _))
  have result : Eval.Reads spent state (binary answers frame symbol (.value left) (.value right))
      value := by
    unfold binary
    by_cases conjunction : symbol = Text.ofString "and"
    · subst conjunction
      cases held
      have same : value = .bool (state.heap.truth left && state.heap.truth right) := by
        have came := always state.heap
        cases came
        rfl
      rw [if_pos rfl, same]
      refine Eval.reads_bind (met left) ?_
      cases state.heap.truth left with
      | true => exact Eval.reads_bind (met right) (Eval.reads_pure _)
      | false => exact Eval.reads_pure _
    · rw [if_neg conjunction]
      by_cases disjunction : symbol = Text.ofString "or"
      · subst disjunction
        cases held
        have same : value = .bool (state.heap.truth left || state.heap.truth right) := by
          have came := always state.heap
          cases came
          rfl
        rw [if_pos rfl, same]
        refine Eval.reads_bind (met left) ?_
        cases state.heap.truth left with
        | true => exact Eval.reads_pure _
        | false => exact Eval.reads_bind (met right) (Eval.reads_pure _)
      · rw [if_neg disjunction, if_neg other]
        rw [← knows.operators.binary] at held
        refine Eval.reads_bind (reads_operator held) ?_
        refine Eval.reads_bind (Eval.reads_pure left) ?_
        refine Eval.reads_bind (Eval.reads_pure right) ?_
        refine Eval.reads_bind (reads_call works direct always) ?_
        have passed : Eval.Reads spent state
            (Eval.guardAgainst .element frame.dialect value) () := by
          refine .inl ?_
          rw [Eval.guardAgainst_apply, Value.isCallable_scalar scalar]
          rfl
        split
        · exact Eval.reads_bind passed (Eval.reads_pure value)
        · exact Eval.reads_pure value
  refine Eval.reads_bind (Eval.reads_pure (Operand.value right, .value left :: stack)) ?_
  refine Eval.reads_bind (Eval.reads_pure (Operand.value left, stack)) ?_
  exact Eval.reads_bind result (Eval.reads_pure _)

omit knows works in
theorem reads_choose {condition yes no : Value} {met : Bool} (scalar : condition.isScalar = true)
    (known : (knownFacts values).truth condition met) (stack : Stack) :
    Eval.Reads spent state
      (step answers frame (.ternary (Text.ofString "?"))
        (.value no :: .value yes :: .value condition :: stack))
      (.value (if met then yes else no) :: stack) := by
  have result : Eval.Reads spent state
      (ternary answers frame (Text.ofString "?") (.value condition) (.value yes) (.value no))
      (if met then yes else no) := by
    unfold ternary
    rw [if_pos rfl]
    refine Eval.reads_bind (Eval.reads_bind (Eval.reads_pure condition)
      (Eval.reads_get (Eval.reads_pure _))) ?_
    rw [known scalar state.heap]
    cases met <;> exact Eval.reads_pure _
  refine Eval.reads_bind
    (Eval.reads_pure (Operand.value no, .value yes :: .value condition :: stack)) ?_
  refine Eval.reads_bind (Eval.reads_pure (Operand.value yes, .value condition :: stack)) ?_
  refine Eval.reads_bind (Eval.reads_pure (Operand.value condition, stack)) ?_
  exact Eval.reads_bind result (Eval.reads_pure _)

omit knows works in
theorem reads_member {object value : Value} {word : Text} (scalar : object.isScalar = true)
    (known : (knownFacts values).member object word value) (stack : Stack) :
    Eval.Reads spent state (step answers frame (.member word) (.value object :: stack))
      (.value value :: stack) := by
  obtain ⟨scalarValue, reserved, always⟩ := known scalar
  have passed : Eval.Reads spent state (Eval.guardAgainst .member frame.dialect value) () := by
    refine .inl ?_
    rw [Eval.guardAgainst_apply, Value.isCallable_scalar scalarValue]
    rfl
  have result : Eval.Reads spent state (readMember frame object word) value := by
    unfold readMember
    rw [reserved]
    refine Eval.reads_get ?_
    rw [always]
    exact Eval.reads_bind passed (Eval.reads_pure value)
  refine Eval.reads_bind (Eval.reads_pure (Operand.value object, stack)) ?_
  refine Eval.reads_bind (Eval.reads_pure object) ?_
  exact Eval.reads_bind result (Eval.reads_pure _)

omit knows works in
theorem steps_append (first second : Program) (stack : Stack) :
    steps answers frame (first ++ second) stack =
      steps answers frame first stack >>= steps answers frame second := by
  induction first generalizing stack with
  | nil => exact (pure_bind _ _).symm
  | cons instruction rest ih =>
      rw [List.cons_append, steps, steps, bind_assoc]
      exact congrArg _ (funext ih)

omit knows works in
/-- The last instruction of a program, after those before it. -/
theorem reads_last {program : Program} {instruction : Instruction} {stack between result : Stack}
    (before : Eval.Reads spent state (steps answers frame program stack) between)
    (last : Eval.Reads spent state (step answers frame instruction between) result) :
    Eval.Reads spent state (steps answers frame (program ++ [instruction]) stack) result := by
  rw [steps_append]
  exact Eval.reads_bind before (Eval.reads_bind last (Eval.reads_pure result))

omit knows works in
theorem reads_append {first second : Program} {stack between result : Stack}
    (before : Eval.Reads spent state (steps answers frame first stack) between)
    (after : Eval.Reads spent state (steps answers frame second between) result) :
    Eval.Reads spent state (steps answers frame (first ++ second) stack) result := by
  rw [steps_append]
  exact Eval.reads_bind before after

/-- A stretch that was folded pushes its value and changes nothing. -/
theorem reads_comes {stretch : Program} {value : Value}
    (comes : Comes (knownFacts values) stretch value) (plain : stretch.Plain)
    (scalars : ∀ name value, named values name = some value → value.isScalar = true)
    {shapes result : List Shape} (scanned : scan stretch shapes = some result) (stack : Stack) :
    Eval.Reads spent state (steps answers frame stretch stack) (.value value :: stack) := by
  induction comes generalizing shapes result stack with
  | literal value => exact Eval.reads_pure (.value value :: stack)
  | @name word value known =>
      have found : Eval.Reads spent state (lookup frame word) value :=
        .inl (knows.names word value known)
      exact Eval.reads_bind (Eval.reads_bind found (Eval.reads_pure _)) (Eval.reads_pure _)
  | unary constant known ih =>
      obtain ⟨between, lower, first, taken, -⟩ := scan_last scanned
      have scalar := constant.scalar plain.left scalars first
      exact reads_last (ih plain.left first stack) (reads_unary knows works scalar known stack)
  | @binary symbol _ _ _ _ _ constantLeft constantRight known ihLeft ihRight =>
      obtain ⟨between, lower, operands, taken, -⟩ := scan_last scanned
      obtain ⟨⟨_, first⟩, ⟨_, second⟩, rfl⟩ := constantLeft.scanned_pair constantRight operands
      have scalarLeft := constantLeft.scalar plain.left.left scalars first
      have scalarRight := constantRight.scalar plain.left.right scalars second
      have other : symbol ≠ Text.ofString "=" := by
        rintro rfl
        cases taken
      exact reads_last
        (reads_append (ihLeft plain.left.left first stack) (ihRight plain.left.right second _))
        (reads_binary knows works other scalarLeft scalarRight known stack)
  | @choose first second third condition yes no value met constantCondition constantYes constantNo
      known chosen ihCondition ihYes ihNo =>
      obtain ⟨between, lower, operands, -, -⟩ := scan_last scanned
      rw [scan_append, Option.bind_eq_some_iff] at operands
      obtain ⟨_, pair, third⟩ := operands
      obtain ⟨⟨_, first⟩, ⟨_, second⟩, rfl⟩ := constantCondition.scanned_pair constantYes pair
      have scalar := constantCondition.scalar plain.left.left.left scalars first
      subst chosen
      have arms := reads_append (ihCondition plain.left.left.left first stack)
        (ihYes plain.left.left.right second _)
      exact reads_last (reads_append arms (ihNo plain.left.right third _))
        (reads_choose scalar known stack)
  | ternary other constantFirst constantSecond _ known =>
      obtain ⟨between, lower, operands, -, -⟩ := scan_last scanned
      rw [scan_append, Option.bind_eq_some_iff] at operands
      obtain ⟨_, pair, -⟩ := operands
      obtain ⟨⟨_, first⟩, -, -⟩ := constantFirst.scanned_pair constantSecond pair
      have scalar := constantFirst.scalar plain.left.left.left scalars first
      rw [known other] at scalar
      cases scalar
  | member constant known ih =>
      obtain ⟨between, lower, first, taken, -⟩ := scan_last scanned
      have scalar := constant.scalar plain.left scalars first
      exact reads_last (ih plain.left first stack) (reads_member scalar known stack)

end

end Machine

end Formula
