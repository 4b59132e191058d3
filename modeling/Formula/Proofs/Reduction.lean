import Mathlib.Order.Bounds.Basic
import Formula.Proofs.Refinement

/-!
Reducing a list of integers by an extremum. Each element comes with its index, and an extremum takes any number
of arguments, so that the indices take part.
-/

namespace Formula

open Machine

/-- What a reduction sees of a list: each element, and its index after it. -/
def visits (index : Nat) : List Int → List Int
  | [] => []
  | item :: rest => item :: index :: visits (index + 1) rest

theorem mem_visits {number : Int} {index : Nat} {items : List Int} : number ∈ visits index items ↔
    number ∈ items ∨ ∃ place < items.length, number = index + place := by
  induction items generalizing index with
  | nil => simp [visits]
  | cons item items ih =>
      simp only [visits, List.mem_cons, ih, List.length_cons]
      constructor
      · rintro (same | same | inside | ⟨place, below, same⟩)
        · exact .inl (.inl same)
        · exact .inr ⟨0, Nat.succ_pos _, by simp [same]⟩
        · exact .inl (.inr inside)
        · exact .inr ⟨place + 1, by omega, by push_cast at same ⊢; omega⟩
      · rintro ((same | inside) | ⟨place, below, same⟩)
        · exact .inl same
        · exact .inr (.inr (.inl inside))
        · cases place with
          | zero => exact .inr (.inl (by simpa using same))
          | succ place => exact .inr (.inr (.inr ⟨place, by omega, by push_cast at same ⊢; omega⟩))

/-- What takes part in reducing a list: the start, the elements, and the index of each. -/
def Reduced (initial : Int) (items : List Int) : Set Int :=
  {number | number = initial ∨ number ∈ items ∨ ∃ index < items.length, number = index}

theorem mem_reduced {number initial : Int} {items : List Int} :
    number ∈ Reduced initial items ↔ number ∈ initial :: visits 0 items := by
  simp [Reduced, mem_visits]

theorem isGreatest_reduced (initial : Int) (items : List Int) :
    IsGreatest (Reduced initial items) ((visits 0 items).foldl max initial) := by
  have greatest : (initial :: visits 0 items).max? = some ((visits 0 items).foldl max initial) := List.max?_cons'
  obtain ⟨member, bound⟩ := List.max?_eq_some_iff.mp greatest
  exact ⟨mem_reduced.mpr member, fun number among => bound number (mem_reduced.mp among)⟩

theorem isLeast_reduced (initial : Int) (items : List Int) :
    IsLeast (Reduced initial items) ((visits 0 items).foldl min initial) := by
  have least : (initial :: visits 0 items).min? = some ((visits 0 items).foldl min initial) := List.min?_cons'
  obtain ⟨member, bound⟩ := List.min?_eq_some_iff.mp least
  exact ⟨mem_reduced.mpr member, fun number among => bound number (mem_reduced.mp among)⟩

namespace Machine

/-- A built-in function that joins two or more integers one after the other, and that can take the index of an
element as well. -/
structure Joins (builtin : Builtin) (function : Int → Int → Int) : Prop where
  direct : (Value.builtin builtin).isDirect = true
  indexed : (builtin.arity.takesIndex && builtin.arity.accepts 3) = true
  applies : ∀ first second others heap, builtin.apply ((first :: second :: others).map .int) heap =
    .ok (.int ((second :: others).foldl function first), heap)

theorem joins_extremum {name : Text} {function : Int → Int → Int} (listed : (name, function) ∈ Datum.extrema) :
    ∃ builtin, standardFunctions.get? name = some (.builtin builtin) ∧ Joins builtin function := by
  obtain ⟨builtin, held, direct, applies⟩ := Datum.gives_extremum listed
  refine ⟨builtin, held, direct, ?_, applies⟩
  simp only [Datum.extrema, List.mem_cons, Prod.mk.injEq, List.not_mem_nil, or_false] at listed
  rcases listed with ⟨rfl, -⟩ | ⟨rfl, -⟩ <;> cases held <;> rfl

section

variable {frame : Frame} {state : State} {answers : Perform} {builtin : Builtin} {function : Int → Int → Int}

theorem reads_callWithIndex (joins : Joins builtin function) (works : Works False answers)
    (total item : Int) (index : Nat) :
    Eval.Reads False state (callWithIndex answers (.builtin builtin) [.int total, .int item] index)
      (.int (function (function total item) index)) := by
  have called : callWithIndex answers (.builtin builtin) [.int total, .int item] index =
      answers (.call (.builtin builtin) [.int total, .int item, .int index]) := by
    simp [callWithIndex, joins.indexed]
  rw [called]
  exact reads_call works joins.direct (joins.applies total item [index])

/-- The elements that are left are joined to the total in order, each with its index. -/
theorem reads_foldFrom (joins : Joins builtin function) (works : Works False answers) {place : Nat}
    (before : List Int) {rest : List Int} (held : state.heap.sequence place = (before ++ rest).map .int)
    (total : Int) : Eval.Reads False state
      (foldFrom answers (.builtin builtin) place before.length (.int total) rest.length)
      (.int ((visits before.length rest).foldl function total)) := by
  induction rest generalizing before total with
  | nil => exact Eval.reads_pure _
  | cons item rest ih =>
      have found : Eval.Reads False state (element place before.length) (.int item) :=
        .inl (by simp [element, Eval.get_bind_apply, held])
      have later := ih (before ++ [item]) (by simpa using held)
        (function (function total item) before.length)
      rw [List.length_append] at later
      exact Eval.reads_bind found (Eval.reads_bind (reads_callWithIndex joins works total item before.length) later)

/-- A sequence is reduced to what its elements and their indices are joined to. -/
theorem reads_fold (joins : Joins builtin function) (works : Works False answers) {collection : Value} {place : Nat}
    (sequence : collection.sequence? = some place) {items : List Int}
    (held : state.heap.sequence place = items.map .int) (initial : Int) :
    Eval.Reads False state (callBuiltin answers .fold [.builtin builtin, .int initial, collection])
      (.int ((visits 0 items).foldl function initial)) := by
  have entered : Eval.Reads False state (traversed "fold" (.builtin builtin) collection) (place, items.length) := by
    rw [traversed, sequence]
    have counted : Eval.Reads False state (do return (place, ((← get).heap.sequence place).length) : Eval (Nat × Nat))
        (place, items.length) := by
      refine Eval.reads_get ?_
      rw [held, List.length_map]
      exact Eval.reads_pure _
    exact counted
  exact Eval.reads_bind entered (reads_foldFrom joins works [] held initial)

end

end Machine

/-- The reduction of a list by a function of two or more arguments, `fold(max, init, xs)` for one. -/
def reduction (name : Text) : Term :=
  .call (.name (Text.ofString "fold")) [.name name, .name (Text.ofString "init"), .name (Text.ofString "xs")]

/-- A state of the standard dialect whose scope names an integer to start from and a sequence of integers. -/
structure Supplies (state : State) (dialect scope : Nat) (initial : Int) (items : List Int) : Prop where
  standard : state.dialect dialect = .standard {}
  initial : named (state.heap.entries scope) (Text.ofString "init") = some (.int initial)
  items : ∃ collection place, named (state.heap.entries scope) (Text.ofString "xs") = some collection ∧
    collection.sequence? = some place ∧ state.heap.sequence place = items.map .int

namespace Supplies

variable {state : State} {initial : Int} {items : List Int}

theorem pushes_reduction (frame : Frame) (supplies : Supplies state frame.dialect frame.scope initial items)
    {name : Text} {function : Int → Int → Int} (listed : (name, function) ∈ Datum.extrema) :
    Pushes frame state (reduction name).code [.int ((visits 0 items).foldl function initial)] := by
  have proper := (by decide : ∀ word ∈ Datum.extrema.map (·.1), Text.isReserved word = false) name
    (List.mem_map_of_mem listed)
  obtain ⟨builtin, standard, joins⟩ := joins_extremum listed
  have held {word : Text} {callable : Builtin} (listed : standardFunctions.get? word = some (.builtin callable)) :
      (state.dialect frame.dialect).functions.get? word = some (.builtin callable) := by
    rw [supplies.standard]
    exact listed
  obtain ⟨collection, place, bound, sequence, contents⟩ := supplies.items
  have harmless : collection.isCallable = false := by cases collection <;> first | rfl | cases sequence
  have folds : (state.dialect frame.dialect).functions.get? (Text.ofString "fold") = some (.builtin .fold) := held rfl
  have unnamed {word : Text} (absent : standardFunctions.get? word = none)
      (symbol : standardUnary.get? word = none) (proper : Text.isReserved word = false) {value : Value}
      (bound : named (state.heap.entries frame.scope) word = some value) (plain : value.isCallable = false) :
      lookup frame word state = some (.ok value, state) :=
    lookup_plain proper (by rw [supplies.standard]; exact absent) (.inl (by rw [supplies.standard]; exact symbol))
      bound plain
  have operands := (Pushes.name (lookup_function (by decide) folds)).append <|
    (Pushes.name (lookup_function proper (held standard))).append <|
    (Pushes.name (unnamed (by decide) (by decide) (by decide) supplies.initial rfl)).append
      (Pushes.name (unnamed (by decide) (by decide) (by decide) bound harmless))
  have called (depth : Nat) (enough : 2 ≤ depth) (stack : Stack) : Eval.Reads False state
      (step (perform depth) frame (.call 3) (.value collection :: .value (.int initial) ::
        .value (.builtin builtin) :: .value (.builtin .fold) :: stack))
      (.value (.int ((visits 0 items).foldl function initial)) :: stack) := by
    obtain ⟨depth, rfl⟩ : ∃ less, depth = less + 2 := ⟨depth - 2, by omega⟩
    refine Eval.reads_bind (reads_popResolved [collection, .int initial, .builtin builtin] []
      (.value (.builtin .fold) :: stack)) ?_
    refine Eval.reads_bind (Eval.reads_pure (Operand.value _, stack)) (Eval.reads_bind (Eval.reads_pure _) ?_)
    refine Eval.reads_bind (reads_admitted rfl (trusts_held folds) (fun argument member callable => ?_)
      (reads_fold joins (works_perform_succ depth) sequence contents initial)) (Eval.reads_pure _)
    rcases List.mem_cons.mp member with rfl | among
    · exact trusts_held (held standard)
    · rcases List.mem_cons.mp among with rfl | among
      · cases callable
      · cases (List.mem_singleton.mp among ▸ harmless).symm.trans callable
  exact operands.last_above 2 called

end Supplies

/-- Reducing by an extremum gives the extremum of the start, the elements and their indices. -/
theorem fold_extremum {state : State} {dialect scope : Nat} {initial : Int} {items : List Int}
    (supplies : Supplies state dialect scope initial items) :
    (∃ term greatest, parse (.standard {}) (Text.ofString "fold(max, init, xs)") = .ok term ∧
      IsGreatest (Reduced initial items) greatest ∧
      Evaluates dialect term.code scope state (.ok (.int greatest)) state) ∧
    ∃ term least, parse (.standard {}) (Text.ofString "fold(min, init, xs)") = .ok term ∧
      IsLeast (Reduced initial items) least ∧
      Evaluates dialect term.code scope state (.ok (.int least)) state := by
  constructor
  · exact ⟨reduction (Text.ofString "max"), _, parse_of_reads (by decide +kernel),
      isGreatest_reduced initial items,
      (supplies.pushes_reduction ⟨dialect, scope⟩ (by simp [Datum.extrema])).evaluates rfl⟩
  · exact ⟨reduction (Text.ofString "min"), _, parse_of_reads (by decide +kernel),
      isLeast_reduced initial items,
      (supplies.pushes_reduction ⟨dialect, scope⟩ (by simp [Datum.extrema])).evaluates rfl⟩

theorem fold_extremum_positive :
    let state : State := {
      heap := {
        sequences := #[[.int 7, .int 2]]
        maps := #[[(.text (Text.ofString "init"), .int 4), (.text (Text.ofString "xs"), .list 0)]] }
      dialects := #[.standard {}] }
    (∃ term greatest, parse (.standard {}) (Text.ofString "fold(max, init, xs)") = .ok term ∧
      IsGreatest (Reduced 4 [7, 2]) greatest ∧ Evaluates 0 term.code 0 state (.ok (.int greatest)) state) ∧
    ∃ term least, parse (.standard {}) (Text.ofString "fold(min, init, xs)") = .ok term ∧
      IsLeast (Reduced 4 [7, 2]) least ∧ Evaluates 0 term.code 0 state (.ok (.int least)) state := by
  intro state
  exact fold_extremum ⟨rfl, rfl, .list 0, 0, rfl, rfl, rfl⟩

/-- The index of a negative element exceeds what the element was to be compared with. -/
theorem fold_extremum_negative :
    let state : State := {
      heap := {
        sequences := #[[.int (-3)]]
        maps := #[[(.text (Text.ofString "init"), .int (-5)), (.text (Text.ofString "xs"), .list 0)]] }
      dialects := #[.standard {}] }
    IsGreatest {number : Int | number = -5 ∨ number ∈ [-3]} (-3) ∧
      ∃ term, parse (.standard {}) (Text.ofString "fold(max, init, xs)") = .ok term ∧
        ∀ outcome, (∃ after, Evaluates 0 term.code 0 state outcome after) ↔ outcome = .ok (.int 0) := by
  intro state
  refine ⟨⟨.inr List.mem_cons_self, ?_⟩, reduction (Text.ofString "max"), parse_of_reads (by decide +kernel), ?_⟩
  · rintro number (rfl | among)
    · decide
    · rw [List.mem_singleton.mp among]
  · have found : perform 4 (.run 0 (reduction (Text.ofString "max")).code 0) state = some (.ok (.int 0), state) := rfl
    refine fun outcome => ⟨?_, fun same => ⟨state, 4, same ▸ found⟩⟩
    rintro ⟨after, depth, came⟩
    exact (perform_determined found came).1

end Formula
