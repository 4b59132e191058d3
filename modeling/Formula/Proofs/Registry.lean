import Mathlib.Data.List.Pairwise
import Formula.Proofs.Circulation
import Formula.Proofs.Trust

/-!
The registry of trust. Whatever dialects evaluate, the tables of each stay those with which it was created,
but for the functions that its own expressions defined, in their order and under serial numbers that no
dialect shares with another.
-/

namespace Formula

open Machine

/-- No standard function has the name of a registered one. -/
theorem standard_unregistered {entry : Text × Value} (standard : entry ∈ standardFunctions) (serial : Nat) :
    entry.1 ≠ registeredName serial := by
  have plain : ∀ known ∈ standardFunctions, known.1.take 7 ≠ Text.ofString "lambda_" := by decide
  intro same
  refine plain entry standard ?_
  rw [same]
  rfl

/-- What happens in a session. The host creates a dialect, a dialect evaluates a program, or the host
changes data: all but the functions of expressions, their count and the tables of dialects. -/
inductive Happens (programs : Program → Prop) : List Options × State → List Options × State → Prop
  | created {known : List Options} {state : State} (options : Options) :
      Happens programs (known, state)
        (known ++ [options], { state with dialects := state.dialects.push (.standard options) })
  | evaluated {known : List Options} {state after : State} {outcome : Except Failure Value}
      {dialect : Nat} {program : Program} (created : dialect < known.length)
      (circulates : programs program) (depth scope : Nat)
      (came : perform depth (.run dialect program scope) state = some (outcome, after)) :
      Happens programs (known, state) (known, after)
  | changed {known : List Options} {state after : State}
      (functions : after.heap.functions = state.heap.functions) (dialects : after.dialects = state.dialects)
      (definitions : after.definitions = state.definitions) :
      Happens programs (known, state) (known, after)

/-- A course of a session: dialects that exist, each with its options, and the state. -/
abbrev Course (programs : Program → Prop) : List Options × State → List Options × State → Prop :=
  Relation.ReflTransGen (Happens programs)

/-- Functions under their serial numbers, as far as they belong to a dialect. -/
def registered (functions : List DefinedFunction) (serials : List Nat) (dialect : Nat) : Table :=
  ((functions.zip serials).zipIdx.filter fun ((function, _), _) => function.dialect = dialect).map
    fun ((_, serial), place) => (registeredName serial, .defined place)

theorem registered_append {functions : List DefinedFunction} {serials : List Nat}
    (paired : serials.length = functions.length) (function : DefinedFunction) (serial dialect : Nat) :
    registered (functions ++ [function]) (serials ++ [serial]) dialect =
      registered functions serials dialect ++ if function.dialect = dialect then
        [(registeredName serial, .defined functions.length)] else [] := by
  have size : (functions.zip serials).length = functions.length := by simp [paired]
  rw [registered, List.zip_append paired.symm, List.zipIdx_append, List.filter_append, List.map_append,
    size]
  refine congrArg (registered functions serials dialect ++ ·) ?_
  by_cases own : function.dialect = dialect
  · simp [own]
  · simp [own]

theorem mem_registered {functions : List DefinedFunction} {serials : List Nat} {dialect : Nat}
    {entry : Text × Value} :
    entry ∈ registered functions serials dialect ↔ ∃ place function serial,
      functions[place]? = some function ∧ serials[place]? = some serial ∧ function.dialect = dialect ∧
        entry = (registeredName serial, .defined place) := by
  simp only [registered, List.mem_map, List.mem_filter, Prod.exists, decide_eq_true_eq,
    List.mem_zipIdx_iff_getElem?, List.getElem?_zip_eq_some]
  constructor
  · rintro ⟨function, serial, place, ⟨⟨found, numbered⟩, own⟩, rfl⟩
    exact ⟨place, function, serial, found, numbered, own, rfl⟩
  · rintro ⟨place, function, serial, found, numbered, own, rfl⟩
    exact ⟨function, serial, place, ⟨⟨found, numbered⟩, own⟩, rfl⟩

/-- The registry of a state: which options its dialects were created with, and under which serial numbers
functions were registered when they were defined. -/
structure State.Registers (state : State) (known : List Options) (serials : List Nat) : Prop where
  dialects : state.dialects.size = known.length
  paired : serials.length = state.heap.functions.size
  increasing : serials.Pairwise (· < ·)
  below : ∀ serial ∈ serials, serial < state.definitions
  own : ∀ function ∈ state.heap.functions, function.dialect < known.length
  tables : ∀ dialect options, known[dialect]? = some options → state.dialect dialect =
    { Dialect.standard options with
      functions := standardFunctions ++ registered state.heap.functions.toList serials dialect }

/-- At the start nothing is registered. -/
theorem State.Registers.start {state : State} (functionless : state.heap.functions = #[])
    (bare : state.dialects = #[]) : state.Registers [] [] where
  dialects := by simp [bare]
  paired := by simp [functionless]
  increasing := .nil
  below := nofun
  own function member := by
    rw [functionless] at member
    exact absurd member (Array.not_mem_empty function)
  tables := nofun

namespace State.Registers

variable {state : State} {known : List Options} {serials : List Nat} (registers : state.Registers known serials)

include registers

/-- Nothing is registered under a number to come. -/
theorem fresh {dialect : Nat} (created : dialect < known.length) {entry : Text × Value}
    (member : entry ∈ (state.dialect dialect).functions) {serial : Nat}
    (later : state.definitions ≤ serial) : entry.1 ≠ registeredName serial := by
  intro same
  rw [registers.tables dialect _ (List.getElem?_eq_getElem created)] at member
  rcases List.mem_append.mp member with standard | added
  · have plain : ∀ known ∈ standardFunctions, known.1.take 7 ≠ Text.ofString "lambda_" := by decide
    refine plain entry standard ?_
    rw [same]
    rfl
  · obtain ⟨place, function, number, -, numbered, -, rfl⟩ := mem_registered.mp added
    have earlier := registers.below number (List.mem_of_getElem? numbered)
    have equal := registeredName_injective same
    omega

/-- A state with the same functions and tables has the same registry. -/
theorem congr {other : State} (functions : other.heap.functions = state.heap.functions)
    (dialects : other.dialects = state.dialects) (definitions : state.definitions ≤ other.definitions) :
    other.Registers known serials where
  dialects := by rw [dialects, registers.dialects]
  paired := by rw [functions, registers.paired]
  increasing := registers.increasing
  below serial member := Nat.lt_of_lt_of_le (registers.below serial member) definitions
  own := by
    rw [functions]
    exact registers.own
  tables dialect options created := by
    have same : other.dialect dialect = state.dialect dialect := by
      rw [State.dialect, State.dialect, dialects]
    rw [same, functions]
    exact registers.tables dialect options created

/-- A new dialect knows no function of the others. -/
theorem create (options : Options) :
    State.Registers { state with dialects := state.dialects.push (.standard options) }
      (known ++ [options]) serials where
  dialects := by simp [registers.dialects]
  paired := registers.paired
  increasing := registers.increasing
  below := registers.below
  own function member := by
    rw [List.length_append]
    exact Nat.lt_add_right _ (registers.own function member)
  tables dialect found created := by
    have size := registers.dialects
    rcases Nat.lt_trichotomy dialect known.length with before | rfl | beyond
    · rw [List.getElem?_append_left before] at created
      rw [← registers.tables dialect found created]
      simp only [State.dialect, Array.getD_eq_getD_getElem?]
      rw [Array.getElem?_push_lt (size ▸ before), Array.getElem?_eq_getElem (size ▸ before)]
    · rw [List.getElem?_concat_length, Option.some.injEq] at created
      subst created
      have none : registered state.heap.functions.toList serials known.length = [] := by
        refine List.eq_nil_iff_forall_not_mem.mpr fun entry member => ?_
        obtain ⟨place, function, -, found, -, same, -⟩ := mem_registered.mp member
        have below := registers.own function (Array.mem_toList_iff.mp (List.mem_of_getElem? found))
        omega
      rw [none, List.append_nil, ← size]
      simp only [State.dialect, Array.getD_eq_getD_getElem?, Array.getElem?_push_size]
      rfl
    · rw [List.getElem?_eq_none (by simp; omega)] at created
      cases created

/-- A definition adds one function, under the next number, to its own dialect. -/
theorem define (scope : Nat) (function : DefinedFunction) (own : function.dialect < known.length) :
    (state.define scope function).Registers known (serials ++ [state.definitions]) where
  dialects := (Array.size_setIfInBounds ..).trans registers.dialects
  paired := by simp [registers.paired]
  increasing := by
    rw [List.pairwise_append]
    refine ⟨registers.increasing, List.pairwise_singleton .., fun serial member next last => ?_⟩
    rw [List.mem_singleton.mp last]
    exact registers.below serial member
  below serial member := by
    rw [State.define_definitions]
    rcases List.mem_append.mp member with old | new
    · exact Nat.lt_succ_of_lt (registers.below serial old)
    · exact List.mem_singleton.mp new ▸ Nat.lt_succ_self _
  own other member := by
    rcases Array.mem_push.mp member with old | rfl
    · exact registers.own other old
    · exact own
  tables dialect options created := by
    have before := registers.tables dialect options created
    have paired : serials.length = state.heap.functions.toList.length := by simp [registers.paired]
    rw [State.define_dialect, State.define_functions, Array.toList_push, registered_append paired]
    by_cases same : function.dialect = dialect
    · have fresh (entry : Text × Value) (member : entry ∈ (state.dialect dialect).functions) :
          entry.1 ≠ registeredName state.definitions :=
        registers.fresh (same ▸ own) member (Nat.le_refl _)
      rw [if_pos ⟨same.symm, registers.dialects ▸ own⟩, if_pos same, same, Table.insert_fresh fresh,
        ← List.append_assoc]
      rw [before]
      rfl
    · rw [if_neg fun here => same here.1.symm, if_neg same, List.append_nil]
      exact before

/-- A dialect trusts the functions that its own expressions defined, and no other ones. -/
theorem trusts_iff {dialect : Nat} (created : dialect < known.length) (place : Nat) :
    (state.dialect dialect).trusts (.defined place) = true ↔
      ∃ function, state.heap.function? place = some function ∧ function.dialect = dialect := by
  have tables := registers.tables dialect _ (List.getElem?_eq_getElem created)
  rw [Dialect.trusts_iff, tables]
  constructor
  · rintro ⟨entry, member, same⟩
    have builtin {entries : List (String × Builtin)} (inside : entry ∈ Table.ofBuiltins entries) :
        entry.2.sameCallable (.defined place) = false := by
      obtain ⟨function, equal⟩ := Table.builtin_of_mem (List.mem_map_of_mem inside)
      rw [equal]
      rfl
    rcases member with inside | inside | inside | inside
    · rcases List.mem_append.mp inside with standard | added
      · exact Bool.noConfusion ((builtin standard).symm.trans same)
      · obtain ⟨other, function, serial, found, -, own, rfl⟩ := mem_registered.mp added
        have places : other = place := by simpa [Value.sameCallable] using same
        rw [Array.getElem?_toList] at found
        exact ⟨function, places ▸ found, own⟩
    · exact Bool.noConfusion ((builtin inside).symm.trans same)
    · exact Bool.noConfusion ((builtin inside).symm.trans same)
    · exact Bool.noConfusion ((builtin inside).symm.trans same)
  · rintro ⟨function, found, own⟩
    have bound : place < serials.length := by
      rw [registers.paired]
      exact (Array.getElem?_eq_some_iff.mp found).1
    refine ⟨(registeredName serials[place], .defined place), .inl (List.mem_append_right _ ?_), ?_⟩
    · exact mem_registered.mpr ⟨place, function, serials[place], by rwa [Array.getElem?_toList],
        List.getElem?_eq_getElem bound, own, rfl⟩
    · simp [Value.sameCallable]

/-- At the gate of a dialect its own functions pass, and those of other dialects are refused. -/
theorem guardAgainst_defined {dialect place : Nat} {function : DefinedFunction}
    (created : dialect < known.length) (found : state.heap.function? place = some function)
    (cause : SecurityCause) :
    Eval.guardAgainst cause dialect (.defined place) state =
      some (if function.dialect = dialect then .ok () else .error (.security cause), state) := by
  have trusts := registers.trusts_iff created place
  simp only [found, Option.some.injEq, exists_eq_left'] at trusts
  rw [Eval.guardAgainst_apply]
  by_cases own : function.dialect = dialect
  · rw [if_pos own, trusts.mpr own]
    rfl
  · have refused : (state.dialect dialect).trusts (.defined place) = false :=
      Bool.eq_false_iff.mpr fun passes => own (trusts.mp passes)
    rw [if_neg own, refused]
    rfl

end State.Registers

/-- The registry is kept, whatever runs in the frames of dialects that exist. -/
def registryRegime (known : List Options) : Regime where
  World := Unit
  reaches _ _ := True
  reaches_refl _ := trivial
  reaches_trans _ _ := trivial
  states _ state := ∃ serials, state.Registers known serials
  programs _ := True
  trusted _ _ := True
  calls _ _ _ := True
  carries _ _ _ := True
  frames frame := frame.dialect < known.length
  trusted_later _ _ := trivial
  calls_later _ _ := trivial
  carries_later _ _ := trivial
  parts _ _ _ := trivial
  data := fun ⟨serials, registers⟩ _ functions =>
    ⟨serials, registers.congr functions rfl (Nat.le_refl _)⟩
  counted := fun ⟨serials, registers⟩ => ⟨serials, registers.congr rfl rfl (Nat.le_succ _)⟩
  defined := fun ⟨_, registers⟩ own _ => ⟨_, registers.define _ _ own⟩
  body _ _ _ := trivial
  trust holds _ _ := ⟨(), trivial, holds, trivial⟩
  calls_trusted _ _ := trivial
  operates holds _ _ _ := ⟨(), trivial, holds, fun _ _ _ => trivial⟩
  visits _ _ _ _ _ _ := trivial
  folds _ _ _ := trivial
  carries_calls _ _ _ := trivial
  carries_next _ _ := trivial
  enters := fun _ ⟨_, registers⟩ found _ =>
    registers.own _ (Array.mem_of_getElem? found)

/-- A function that was defined stays what it is, whatever runs. -/
def lastingRegime (place : Nat) (function : DefinedFunction) : Regime :=
  .ofInvariant (fun state => state.heap.function? place = some function) (fun _ => True)
    (fun _ _ _ => trivial)
    (fun found _ functions => by rwa [Heap.function?, functions])
    (fun found => found)
    (fun found _ => State.define_function? found _ _)
    (fun _ _ _ => trivial)

theorem Machine.function?_lasts {depth dialect scope place : Nat} {program : Program} {state after : State}
    {function : DefinedFunction} {outcome : Except Failure Value}
    (found : state.heap.function? place = some function)
    (came : perform depth (.run dialect program scope) state = some (outcome, after)) :
    after.heap.function? place = some function := by
  have heeds := (lastingRegime place function).heeds_perform
  obtain ⟨-, _, -, kept⟩ := (lastingRegime place function).run_heeding heeds heeds () ⟨dialect, scope⟩
    found trivial trivial came
  exact kept

/-- A dialect that has nothing but functions of its expressions besides what it was created with. -/
structure State.Extends (state : State) (dialect : Nat) (options : Options) (registered : Table) : Prop where
  table : state.dialect dialect =
    { Dialect.standard options with functions := standardFunctions ++ registered }
  entries : ∀ entry ∈ registered, ∃ serial place, entry = (registeredName serial, .defined place) ∧
    serial < state.definitions ∧ place < state.heap.functions.size

namespace State.Extends

variable {state : State} {dialect : Nat} {options : Options} {registered : Table}
  (extending : state.Extends dialect options registered)

theorem of_standard (standard : state.dialect dialect = .standard options) :
    state.Extends dialect options [] :=
  ⟨by rw [standard, List.append_nil]; rfl, nofun⟩

include extending

theorem congr {other : State} (functions : other.heap.functions = state.heap.functions)
    (dialects : other.dialects = state.dialects) (definitions : state.definitions ≤ other.definitions) :
    other.Extends dialect options registered where
  table := by rw [State.dialect, dialects, ← State.dialect, extending.table]
  entries entry member := by
    obtain ⟨serial, place, same, below, inside⟩ := extending.entries entry member
    exact ⟨serial, place, same, Nat.lt_of_lt_of_le below definitions, by rwa [functions]⟩

/-- A definition adds at most one function. -/
theorem define (scope : Nat) (function : DefinedFunction) :
    ∃ more, (state.define scope function).Extends dialect options more := by
  have old (entry : Text × Value) (member : entry ∈ registered) : ∃ serial place,
      entry = (registeredName serial, .defined place) ∧
        serial < (state.define scope function).definitions ∧
          place < (state.define scope function).heap.functions.size := by
    obtain ⟨serial, place, same, below, inside⟩ := extending.entries entry member
    refine ⟨serial, place, same, Nat.lt_succ_of_lt below, ?_⟩
    rw [State.define_functions, Array.size_push]
    exact Nat.lt_succ_of_lt inside
  by_cases own : dialect = function.dialect ∧ function.dialect < state.dialects.size
  · have fresh (entry : Text × Value) (member : entry ∈ standardFunctions ++ registered) :
        entry.1 ≠ registeredName state.definitions := by
      rcases List.mem_append.mp member with standard | added
      · exact standard_unregistered standard _
      · obtain ⟨serial, place, rfl, below, -⟩ := extending.entries entry added
        exact fun same => Nat.ne_of_lt below (registeredName_injective same)
    refine ⟨registered ++ [(registeredName state.definitions, .defined state.heap.functions.size)], ?_, ?_⟩
    · rw [State.define_dialect, if_pos own, ← own.1, extending.table, Table.insert_fresh fresh,
        List.append_assoc]
    · intro entry member
      rcases List.mem_append.mp member with earlier | new
      · exact old entry earlier
      · refine ⟨_, _, List.mem_singleton.mp new, Nat.lt_succ_self _, ?_⟩
        rw [State.define_functions, Array.size_push]
        exact Nat.lt_succ_self _
  · exact ⟨registered, by rw [State.define_dialect, if_neg own, extending.table], old⟩

end State.Extends

/-- Dialects stay such, whatever runs, and definitions are counted on. -/
def extendingRegime (dialect definitions : Nat) (options : Options) : Regime :=
  .ofInvariant
    (fun state => definitions ≤ state.definitions ∧ ∃ registered, state.Extends dialect options registered)
    (fun _ => True) (fun _ _ _ => trivial)
    (fun ⟨counted, registered, extending⟩ _ functions =>
      ⟨counted, registered, extending.congr functions rfl (Nat.le_refl _)⟩)
    (fun ⟨counted, registered, extending⟩ =>
      ⟨Nat.le_succ_of_le counted, registered, extending.congr rfl rfl (Nat.le_succ _)⟩)
    (fun ⟨counted, _, extending⟩ _ => ⟨Nat.le_succ_of_le counted, extending.define _ _⟩)
    (fun _ _ _ => trivial)

theorem Machine.extension_lasts {depth own dialect scope definitions : Nat} {options : Options} {program : Program}
    {state after : State} {outcome : Except Failure Value}
    (holds : definitions ≤ state.definitions ∧ ∃ registered, state.Extends dialect options registered)
    (came : perform depth (.run own program scope) state = some (outcome, after)) :
    definitions ≤ after.definitions ∧ ∃ registered, after.Extends dialect options registered := by
  have heeds := (extendingRegime dialect definitions options).heeds_perform
  obtain ⟨-, _, -, kept⟩ := (extendingRegime dialect definitions options).run_heeding heeds heeds ()
    ⟨own, scope⟩ holds trivial trivial came
  exact kept

namespace Course

variable {programs : Program → Prop} {known others : List Options} {state later : State}

/-- The registry lasts through a course. -/
theorem registers {serials : List Nat} (registers : state.Registers known serials)
    (course : Course programs (known, state) (others, later)) :
    ∃ serials, later.Registers others serials := by
  generalize last : (others, later) = reached at course
  induction course generalizing others later with
  | refl =>
      cases last
      exact ⟨serials, registers⟩
  | tail _ happens ih =>
      cases happens with
      | created options =>
          cases last
          obtain ⟨serials, registers⟩ := ih rfl
          exact ⟨serials, registers.create options⟩
      | @evaluated _ _ _ _ dialect program created _ depth scope came =>
          cases last
          have heeds := (registryRegime others).heeds_perform
          obtain ⟨-, _, -, kept⟩ := (registryRegime others).run_heeding heeds heeds ()
            ⟨dialect, scope⟩ (ih rfl) created trivial came
          exact kept
      | changed functions dialects definitions =>
          cases last
          obtain ⟨serials, registers⟩ := ih rfl
          exact ⟨serials, registers.congr functions dialects (Nat.le_of_eq definitions.symm)⟩

/-- Functions last through a course. -/
theorem function? {place : Nat} {function : DefinedFunction}
    (found : state.heap.function? place = some function)
    (course : Course programs (known, state) (others, later)) :
    later.heap.function? place = some function := by
  generalize last : (others, later) = reached at course
  induction course generalizing others later with
  | refl =>
      cases last
      exact found
  | tail _ happens ih =>
      cases happens with
      | @created _ state options =>
          cases last
          have kept : state.heap.function? place = some function := ih rfl
          exact kept
      | evaluated _ _ depth scope came =>
          cases last
          exact Machine.function?_lasts (ih rfl) came
      | changed functions dialects definitions =>
          cases last
          rw [Heap.function?, functions]
          exact ih rfl

end Course

/-- Whether every dialect trusts the functions of its own expressions and no others. -/
def State.trustsOwn (state : State) : Bool :=
  (List.range state.dialects.size).all fun dialect =>
    state.heap.functions.toList.zipIdx.all fun (function, place) =>
      (state.dialect dialect).trusts (.defined place) == decide (function.dialect = dialect)

theorem State.Registers.trustsOwn {state : State} {known : List Options} {serials : List Nat}
    (registers : state.Registers known serials) : state.trustsOwn = true := by
  refine List.all_eq_true.mpr fun dialect inside => List.all_eq_true.mpr ?_
  rintro ⟨function, place⟩ member
  have created : dialect < known.length := registers.dialects ▸ List.mem_range.mp inside
  have found : state.heap.function? place = some function := by
    rw [List.mem_zipIdx_iff_getElem?, Array.getElem?_toList] at member
    exact member
  have trusts := registers.trusts_iff created place
  simp only [found, Option.some.injEq, exists_eq_left'] at trusts
  rw [beq_iff_eq, Bool.eq_iff_iff, trusts, decide_eq_true_eq]

/-- The machine under an audit: it raises an alarm at every request, however deep inside other requests,
in a state in which a dialect trusts a function of another, or not one of its own. -/
def Machine.audited (alarm : Perform) : Nat → Perform
  | 0 => fun _ => Eval.outOfFuel
  | depth + 1 => fun request state =>
    if state.trustsOwn then fulfil (audited alarm depth) request state else alarm request state

theorem heeds_audited (known : List Options) (alarm : Perform) :
    (registryRegime known).Heeds (audited alarm) where
  zero := rfl
  runs _ _ _ _ _ := fun ⟨_, registers⟩ _ _ => if_pos registers.trustsOwn
  calls _ _ _ _ _ := fun ⟨_, registers⟩ _ => if_pos registers.trustsOwn

end Formula
