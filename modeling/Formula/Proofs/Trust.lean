import Formula.Proofs.Regime
import Formula.Proofs.Table

/-!
No untrusted call. A dialect whose tables hold built-in entries and functions of its own expressions
never calls anything but their entries, whatever programs and values come its way.
-/

namespace Formula

theorem Text.ofNat_injective {left right : Nat} (same : Text.ofNat left = Text.ofNat right) :
    left = right := by
  have characters : Function.Injective Char.toNat := fun _ _ equal => Char.toNat_inj.mp equal
  have digits := List.map_injective_iff.mpr characters same
  rw [← Nat.ofDigitChars_ten_toDigits (n := left), digits, Nat.ofDigitChars_ten_toDigits]

theorem registeredName_injective {left right : Nat}
    (same : registeredName left = registeredName right) : left = right :=
  Text.ofNat_injective (List.append_cancel_left same)

/-- Whether a function calls another one that it is given. -/
def Value.traverses : Value → Bool
  | .builtin .map | .builtin .filter | .builtin .fold => true
  | _ => false

theorem Dialect.trusts_iff (dialect : Dialect) (callable : Value) :
    dialect.trusts callable = true ↔
      ∃ entry, (entry ∈ dialect.functions ∨ entry ∈ dialect.unary ∨ entry ∈ dialect.ternary ∨
        entry ∈ dialect.binary) ∧ entry.2.sameCallable callable = true := by
  simp only [trusts, List.any_cons, List.any_nil, Bool.or_false, Bool.or_eq_true, List.any_eq_true]
  constructor
  · rintro (⟨entry, member, same⟩ | ⟨entry, member, same⟩ | ⟨entry, member, same⟩ |
      ⟨entry, member, same⟩)
    · exact ⟨entry, .inl member, same⟩
    · exact ⟨entry, .inr (.inl member), same⟩
    · exact ⟨entry, .inr (.inr (.inl member)), same⟩
    · exact ⟨entry, .inr (.inr (.inr member)), same⟩
  · rintro ⟨entry, member | member | member | member, same⟩
    · exact .inl ⟨entry, member, same⟩
    · exact .inr (.inl ⟨entry, member, same⟩)
    · exact .inr (.inr (.inl ⟨entry, member, same⟩))
    · exact .inr (.inr (.inr ⟨entry, member, same⟩))

namespace State

/-- A function that an expression of a dialect defined. -/
def Owns (state : State) (dialect : Nat) (value : Value) : Prop :=
  ∃ place function, value = .defined place ∧ state.heap.function? place = some function ∧
    function.dialect = dialect

/-- The tables of a dialect hold built-in entries and functions of its own expressions, and nothing
stands under a name that a later definition will take. -/
structure SelfMade (state : State) (dialect : Nat) : Prop where
  unary : ∀ entry ∈ (state.dialect dialect).unary,
    entry.2 ∈ standardUnary.map (·.2) ∨ state.Owns dialect entry.2
  binary : ∀ entry ∈ (state.dialect dialect).binary,
    entry.2 ∈ standardBinary.map (·.2) ∨ state.Owns dialect entry.2
  ternary : ∀ entry ∈ (state.dialect dialect).ternary,
    entry.2 ∈ standardTernary.map (·.2) ∨ state.Owns dialect entry.2
  functions : ∀ entry ∈ (state.dialect dialect).functions,
    entry.2 ∈ standardFunctions.map (·.2) ∨ state.Owns dialect entry.2
  fresh : ∀ entry ∈ (state.dialect dialect).functions, ∀ serial, state.definitions ≤ serial →
    entry.1 ≠ registeredName serial

namespace SelfMade

variable {state : State} {dialect : Nat} (made : state.SelfMade dialect)

include made

/-- What else the state holds makes no difference. -/
theorem congr {other : State} (functions : other.heap.functions = state.heap.functions)
    (tables : other.dialect dialect = state.dialect dialect)
    (definitions : state.definitions ≤ other.definitions) : other.SelfMade dialect := by
  have owns (value : Value) (owned : state.Owns dialect value) : other.Owns dialect value := by
    obtain ⟨place, function, same, found, own⟩ := owned
    exact ⟨place, function, same, by rwa [Heap.function?, functions], own⟩
  constructor
  · intro entry member
    exact (made.unary entry (tables ▸ member)).imp_right (owns _)
  · intro entry member
    exact (made.binary entry (tables ▸ member)).imp_right (owns _)
  · intro entry member
    exact (made.ternary entry (tables ▸ member)).imp_right (owns _)
  · intro entry member
    exact (made.functions entry (tables ▸ member)).imp_right (owns _)
  · intro entry member serial later
    exact made.fresh entry (tables ▸ member) serial (Nat.le_trans definitions later)

omit made in
theorem of_standard (options : Options) (tables : state.dialect dialect = .standard options) :
    state.SelfMade dialect where
  unary entry member := .inl (List.mem_map_of_mem (by rwa [tables] at member))
  binary entry member := .inl (List.mem_map_of_mem (by rwa [tables] at member))
  ternary entry member := .inl (List.mem_map_of_mem (by rwa [tables] at member))
  functions entry member := .inl (List.mem_map_of_mem (by rwa [tables] at member))
  fresh entry member serial _ same := by
    rw [tables] at member
    have plain : ∀ known ∈ standardFunctions, known.1.take 7 ≠ Text.ofString "lambda_" := by decide
    refine plain entry member ?_
    rw [same]
    rfl

/-- Definitions add functions that their dialect owns. -/
theorem define (scope : Nat) (function : DefinedFunction) :
    (state.define scope function).SelfMade dialect := by
  have owns (value : Value) (owned : state.Owns dialect value) :
      (state.define scope function).Owns dialect value := by
    obtain ⟨place, known, same, found, own⟩ := owned
    exact ⟨place, known, same, define_function? found scope function, own⟩
  by_cases changed : dialect = function.dialect ∧ function.dialect < state.dialects.size
  · have tables := define_dialect state scope function dialect
    rw [if_pos changed, ← changed.1] at tables
    constructor
    · intro entry member
      rw [tables] at member
      exact (made.unary entry member).imp_right (owns _)
    · intro entry member
      rw [tables] at member
      exact (made.binary entry member).imp_right (owns _)
    · intro entry member
      rw [tables] at member
      exact (made.ternary entry member).imp_right (owns _)
    · intro entry member
      rw [tables] at member
      rcases Table.mem_insert member with rfl | old
      · exact .inr ⟨_, function, rfl, define_function_new state scope function, changed.1.symm⟩
      · exact (made.functions entry old).imp_right (owns _)
    · intro entry member serial later
      rw [tables] at member
      rw [define_definitions] at later
      rcases Table.mem_insert member with rfl | old
      · intro same
        have equal := registeredName_injective same
        omega
      · exact made.fresh entry old serial (by omega)
  · have tables := define_dialect state scope function dialect
    rw [if_neg changed] at tables
    constructor
    · intro entry member
      exact (made.unary entry (tables ▸ member)).imp_right (owns _)
    · intro entry member
      exact (made.binary entry (tables ▸ member)).imp_right (owns _)
    · intro entry member
      exact (made.ternary entry (tables ▸ member)).imp_right (owns _)
    · intro entry member
      exact (made.functions entry (tables ▸ member)).imp_right (owns _)
    · intro entry member serial later
      rw [define_definitions] at later
      exact made.fresh entry (tables ▸ member) serial (by omega)

/-- A definition takes trust from nothing. -/
theorem trusts_define {callable : Value} (trusts : (state.dialect dialect).trusts callable = true)
    (scope : Nat) (function : DefinedFunction) :
    ((state.define scope function).dialect dialect).trusts callable = true := by
  rw [define_dialect]
  split
  · rename_i changed
    rw [changed.1] at trusts made
    obtain ⟨entry, member, same⟩ := (Dialect.trusts_iff ..).mp trusts
    refine (Dialect.trusts_iff ..).mpr ⟨entry, member.imp_left fun inside => ?_, same⟩
    exact Table.mem_insert_of_fresh _
      (fun known inside => made.fresh known inside state.definitions (Nat.le_refl _)) inside
  · exact trusts

/-- A trusted function that an expression defined belongs to the dialect itself. -/
theorem owns_of_trusts {place : Nat}
    (trusts : (state.dialect dialect).trusts (.defined place) = true) :
    state.Owns dialect (.defined place) := by
  obtain ⟨entry, member, same⟩ := (Dialect.trusts_iff ..).mp trusts
  have either : (∃ builtin, entry.2 = .builtin builtin) ∨ state.Owns dialect entry.2 := by
    rcases member with inside | inside | inside | inside
    · exact (made.functions entry inside).imp_left Table.builtin_of_mem
    · exact (made.unary entry inside).imp_left Table.builtin_of_mem
    · exact (made.ternary entry inside).imp_left Table.builtin_of_mem
    · exact (made.binary entry inside).imp_left Table.builtin_of_mem
  rcases either with ⟨builtin, builtIn⟩ | owned
  · rw [builtIn] at same
    cases same
  · obtain ⟨other, function, equal, found, own⟩ := owned
    rw [equal] at same
    have places : other = place := by simpa [Value.sameCallable] using same
    exact ⟨place, function, rfl, places ▸ found, own⟩

/-- An entry of a table is trusted, and calls nothing that it is given unless it is a traversal. -/
theorem trusts_of_get? {table : Dialect → Table} {symbol : Text} {function : Value}
    (kind : table = Dialect.unary ∨ table = Dialect.binary ∨ table = Dialect.ternary)
    (found : (table (state.dialect dialect)).get? symbol = some function) :
    (state.dialect dialect).trusts function = true ∧ function.traverses = false := by
  have member := Table.mem_of_get? found
  have standard : (function ∈ standardUnary.map (·.2) ∨ function ∈ standardTernary.map (·.2) ∨
      function ∈ standardBinary.map (·.2)) ∨ state.Owns dialect function := by
    rcases kind with rfl | rfl | rfl
    · exact (made.unary _ member).imp_left .inl
    · exact (made.binary _ member).imp_left fun inside => .inr (.inr inside)
    · exact (made.ternary _ member).imp_left fun inside => .inr (.inl inside)
  have same : function.sameCallable function = true := by
    rcases standard with (inside | inside | inside) | ⟨place, _, rfl, -⟩
    · obtain ⟨builtin, rfl⟩ := Table.builtin_of_mem inside
      simp [Value.sameCallable]
    · obtain ⟨builtin, rfl⟩ := Table.builtin_of_mem inside
      simp [Value.sameCallable]
    · obtain ⟨builtin, rfl⟩ := Table.builtin_of_mem inside
      simp [Value.sameCallable]
    · simp [Value.sameCallable]
  constructor
  · refine (Dialect.trusts_iff ..).mpr ⟨(symbol, function), ?_, same⟩
    rcases kind with rfl | rfl | rfl
    · exact .inr (.inl member)
    · exact .inr (.inr (.inr member))
    · exact .inr (.inr (.inl member))
  · rcases standard with (inside | inside | inside) | ⟨place, _, rfl, -⟩
    · exact (by decide : ∀ value ∈ standardUnary.map (·.2), value.traverses = false) _ inside
    · exact (by decide : ∀ value ∈ standardTernary.map (·.2), value.traverses = false) _ inside
    · exact (by decide : ∀ value ∈ standardBinary.map (·.2), value.traverses = false) _ inside
    · rfl

end SelfMade

end State

namespace Machine

/-- A call of a trusted function. What a traversal of a sequence calls, or takes as the first total,
is trusted too as far as it is callable. -/
def Permitted (trusted : Value → Prop) (function : Value) (arguments : List Value) : Prop :=
  trusted function ∧
    match function, arguments with
    | .builtin .map, [inner, collection] | .builtin .filter, [inner, collection] =>
      collection.sequence?.isSome = true → inner.isCallable = true → trusted inner
    | .builtin .fold, [inner, first, collection] =>
      collection.sequence?.isSome = true →
        (inner.isCallable = true → trusted inner) ∧ (first.isCallable = true → trusted first)
    | _, _ => True

/-- A function that may be called on a total: a traversal would call the total itself. -/
def Carried (trusted : Value → Prop) (function total : Value) : Prop :=
  trusted function ∧ (function.gathers = true → total.isCallable = true → trusted total)

namespace Permitted

variable {trusted : Value → Prop} {function : Value} {arguments : List Value}

theorem of_plain (known : trusted function) (plain : function.traverses = false) :
    Permitted trusted function arguments := by
  refine ⟨known, ?_⟩
  split
  · cases plain
  · cases plain
  · cases plain
  · trivial

theorem of_trusted (known : trusted function)
    (all : ∀ argument ∈ arguments, argument.isCallable = true → trusted argument) :
    Permitted trusted function arguments := by
  refine ⟨known, ?_⟩
  split
  · exact fun _ => all _ (by simp)
  · exact fun _ => all _ (by simp)
  · exact fun _ => ⟨all _ (by simp), all _ (by simp)⟩
  · trivial

theorem later {wider : Value → Prop} (permitted : Permitted trusted function arguments)
    (implies : ∀ value, trusted value → wider value) : Permitted wider function arguments := by
  obtain ⟨known, inner⟩ := permitted
  refine ⟨implies _ known, ?_⟩
  revert inner
  split
  · exact fun inner sequence callable => implies _ (inner sequence callable)
  · exact fun inner sequence callable => implies _ (inner sequence callable)
  · exact fun inner sequence => ⟨fun callable => implies _ ((inner sequence).1 callable),
      fun callable => implies _ ((inner sequence).2 callable)⟩
  · exact fun _ => trivial

/-- A traversal that a traversal calls is given an index for a collection, or too few arguments. -/
theorem visit (known : trusted function) (item : Value) (index : Nat) :
    Permitted trusted function (withIndex function [item] index) := by
  refine ⟨known, ?_⟩
  split
  · rename_i equation
    cases equation
    exact nofun
  · rename_i equation
    cases equation
    exact nofun
  · rename_i equation
    cases equation
  · trivial

theorem fold {first collection : Value} {place : Nat}
    (permitted : Permitted trusted (.builtin .fold) [function, first, collection])
    (callable : function.isCallable = true) (sequence : collection.sequence? = some place) :
    Carried trusted function first := by
  obtain ⟨-, inner⟩ := permitted
  have given := inner (by rw [sequence]; rfl)
  exact ⟨given.1 callable, fun _ => given.2⟩

end Permitted

theorem Carried.later {trusted wider : Value → Prop} {function total : Value}
    (carried : Carried trusted function total) (implies : ∀ value, trusted value → wider value) :
    Carried wider function total :=
  ⟨implies _ carried.1, fun gathers callable => implies _ (carried.2 gathers callable)⟩

theorem Carried.permitted {trusted : Value → Prop} {function total : Value}
    (carried : Carried trusted function total) (item : Value) (index : Nat) :
    Permitted trusted function (withIndex function [total, item] index) := by
  refine ⟨carried.1, ?_⟩
  split
  · rename_i equation
    cases equation
    exact fun _ => carried.2 rfl
  · rename_i equation
    cases equation
    exact fun _ => carried.2 rfl
  · rename_i equation
    cases equation
    exact nofun
  · trivial

/-- The machine with a watch over calls: it raises an alarm in place of every call, however deep
inside other requests, of what no table of a dialect holds at that moment. -/
def watched (dialect : Nat) (alarm : Perform) : Nat → Perform
  | 0 => fun _ => Eval.outOfFuel
  | depth + 1 => fun request state =>
    if allows state request then fulfil (watched dialect alarm depth) request state
    else alarm request state
where
  allows (state : State) : Request → Bool
    | .run _ _ _ => true
    | .call function _ => (state.dialect dialect).trusts function

end Machine

/-- What may happen between a first state and a later one, as far as a dialect is concerned: any
dialect evaluates any program, and the host changes anything but the functions of expressions, their
count and the tables of the dialect. -/
inductive History (dialect : Nat) (first : State) : State → Prop
  | start : History dialect first first
  | evaluated {state after : State} {outcome : Except Failure Value} (earlier : History dialect first state)
      (depth evaluator scope : Nat) (program : Program)
      (came : Machine.perform depth (.run evaluator program scope) state = some (outcome, after)) :
      History dialect first after
  | changed {state after : State} (earlier : History dialect first state)
      (functions : after.heap.functions = state.heap.functions)
      (definitions : after.definitions = state.definitions)
      (tables : after.dialect dialect = state.dialect dialect) : History dialect first after

open Machine

/-- A dialect stays self-made, whatever runs. -/
def selfMadeRegime (dialect : Nat) : Regime :=
  .ofInvariant (fun state => state.SelfMade dialect) (fun _ => True)
    (fun _ _ _ => trivial)
    (fun made _ functions => made.congr functions rfl (Nat.le_refl _))
    (fun made => made.congr rfl rfl (Nat.le_succ _))
    (fun made _ => made.define _ _)
    (fun _ _ _ => trivial)

theorem History.selfMade {dialect : Nat} {first state : State} (made : first.SelfMade dialect)
    (history : History dialect first state) : state.SelfMade dialect := by
  induction history with
  | start => exact made
  | evaluated earlier depth evaluator scope program came ih =>
      have heeds := (selfMadeRegime dialect).heeds_perform
      obtain ⟨-, _, -, kept⟩ := (selfMadeRegime dialect).run_heeding heeds heeds ()
        ⟨evaluator, scope⟩ ih trivial trivial came
      exact kept
  | changed earlier functions definitions tables ih =>
      exact ih.congr functions tables (Nat.le_of_eq definitions.symm)

/-- While a dialect is self-made, what its tables hold stays trusted. -/
def trustRegime (dialect : Nat) : Regime where
  World := Value → Prop
  reaches before after := ∀ value, before value → after value
  reaches_refl _ _ known := known
  reaches_trans first second value known := second value (first value known)
  states trusted state := state.SelfMade dialect ∧
    ∀ value, trusted value → (state.dialect dialect).trusts value = true
  programs _ := True
  trusted trusted value := trusted value
  calls := Permitted
  carries := Carried
  frames frame := frame.dialect = dialect
  trusted_later implies known := implies _ known
  calls_later implies permitted := permitted.later implies
  carries_later implies carried :=
    ⟨implies _ carried.1, fun gathers callable => implies _ (carried.2 gathers callable)⟩
  parts _ _ _ := trivial
  data holds _ functions := ⟨holds.1.congr functions rfl (Nat.le_refl _), holds.2⟩
  counted holds := ⟨holds.1.congr rfl rfl (Nat.le_succ _), holds.2⟩
  defined holds _ _ := ⟨holds.1.define _ _,
    fun value known => holds.1.trusts_define (holds.2 value known) _ _⟩
  body _ _ _ := trivial
  trust := by
    rintro world state frame function ⟨made, known⟩ rfl trusts
    refine ⟨fun value => world value ∨ value = function, fun _ => .inl, ⟨made, ?_⟩, .inr rfl⟩
    rintro value (old | rfl)
    · exact known value old
    · exact trusts
  calls_trusted known all := .of_trusted known all
  operates := by
    rintro world state frame symbol function table ⟨made, known⟩ rfl kind found
    obtain ⟨trusts, plain⟩ := made.trusts_of_get? kind found
    refine ⟨fun value => world value ∨ value = function, fun _ => .inl, ⟨made, ?_⟩, ?_⟩
    · rintro value (old | rfl)
      · exact known value old
      · exact trusts
    · exact fun last further arguments => .of_plain (further function (.inr rfl)) plain
  visits := by
    rintro world traversal function collection place (rfl | rfl) permitted callable sequence item index
    · exact .visit (permitted.2 (by rw [sequence]; rfl) callable) item index
    · exact .visit (permitted.2 (by rw [sequence]; rfl) callable) item index
  folds permitted callable sequence := permitted.fold callable sequence
  carries_calls carried item index := carried.permitted item index
  carries_next carried gathered :=
    ⟨carried.1, fun gathers callable => by simp [gathered gathers] at callable⟩
  enters := by
    rintro world state place arguments function permitted ⟨made, known⟩ found _
    obtain ⟨other, owner, same, owned, own⟩ := made.owns_of_trusts (known _ permitted.1)
    cases same
    rw [found] at owned
    cases owned
    exact own

theorem heeds_watched (dialect : Nat) (alarm : Perform) :
    (trustRegime dialect).Heeds (watched dialect alarm) where
  zero := rfl
  runs _ _ _ _ _ _ _ _ := rfl
  calls _ _ _ function _ holds permitted := if_pos (holds.2 function permitted.1)

/-- A state with the standard dialect and a callable of the host in its only scope. -/
def hostedState : State where
  heap := { maps := #[[(.text (Text.ofString "h"), .host 0 (Text.ofString "h"))]], hosts := 1 }
  dialects := #[Dialect.standard {}]

/-- The state after `f(x) = x`. -/
def definedState : State :=
  hostedState.define 0 ⟨Text.ofString "f", [.text (Text.ofString "x")],
    .suspended [.name (Text.ofString "x")], 0, 0⟩

end Formula
