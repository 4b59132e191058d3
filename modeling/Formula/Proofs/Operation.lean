import Formula.Member
import Formula.Operation.Apply
import Formula.Proofs.Functions

/-!
What operations keep: they do not look into functions, and they give out only values that they were
given or that are no mappings.
-/

namespace Formula

namespace Value

/-- Whether a value is a mapping or a built-in function. No operation makes one. -/
def isGiven : Value → Bool
  | .map _ | .builtin _ => true
  | _ => false

/-- Whether a value is a number, a text, a truth or nothing. -/
def isScalar : Value → Bool
  | .null | .bool _ | .int _ | .float _ | .notANumber _ | .text _ => true
  | _ => false

/-- Whether a call of a value may bind a name in a mapping: the two functions behind `=` do. -/
def rebinds : Value → Bool
  | .builtin .assign | .builtin .assignMember => true
  | _ => false

theorem isGiven_of_isScalar {value : Value} (scalar : value.isScalar = true) :
    value.isGiven = false := by
  cases value <;> first | rfl | cases scalar

end Value

namespace Heap

/-- All values in the sequences and mappings of a heap are good. -/
structure Holds (good : Value → Prop) (heap : Heap) : Prop where
  sequences : ∀ place, ∀ item ∈ heap.sequence place, good item
  entries : ∀ place, ∀ entry ∈ heap.entries place, good entry.2

/-- What a heap is after an operation on good values: its functions are the same, and so is every
mapping but those that may be written. -/
structure Keeps (good : Value → Prop) (writes : Nat → Prop) (before after : Heap) : Prop where
  holds : after.Holds good
  functions : after.functions = before.functions
  size : after.maps.size = before.maps.size
  entries : ∀ place, ¬ writes place → after.entries place = before.entries place

variable {good : Value → Prop} {writes : Nat → Prop} {heap : Heap}

theorem Keeps.refl (holds : heap.Holds good) : heap.Keeps good writes heap :=
  ⟨holds, rfl, rfl, fun _ _ => rfl⟩

theorem Keeps.trans {first second third : Heap} (left : first.Keeps good writes second)
    (right : second.Keeps good writes third) : first.Keeps good writes third where
  holds := right.holds
  functions := right.functions.trans left.functions
  size := right.size.trans left.size
  entries place hidden := (right.entries place hidden).trans (left.entries place hidden)

theorem Holds.lookup (holds : heap.Holds good) {key value : Value} {place : Nat}
    (found : heap.lookup key (heap.entries place) = some value) : good value := by
  simp only [Heap.lookup, lookupWith, Option.map_eq_some_iff] at found
  obtain ⟨entry, member, rfl⟩ := found
  exact holds.entries place entry (List.mem_of_find?_eq_some member)

theorem mem_bind {key value : Value} {entries : Entries} {entry : Value × Value}
    (member : entry ∈ heap.bind key value entries) : entry.2 = value ∨ entry ∈ entries := by
  induction entries with
  | nil =>
      simp only [bind, List.mem_singleton] at member
      exact .inl (by rw [member])
  | cons known rest ih =>
      simp only [bind] at member
      split at member
      · rcases List.mem_cons.mp member with first | later
        · exact .inl (by rw [first])
        · exact .inr (List.mem_cons_of_mem known later)
      · rcases List.mem_cons.mp member with first | later
        · exact .inr (by rw [first]; exact List.mem_cons_self)
        · exact (ih later).imp_right (List.mem_cons_of_mem known)

theorem sequence_push (items : List Value) (place : Nat) :
    (heap.addSequence items).2.sequence place =
      if place = heap.sequences.size then items else heap.sequence place := by
  simp only [addSequence, sequence, Array.getD_eq_getD_getElem?, Array.getElem?_push]
  split <;> rfl

theorem keeps_addSequence (holds : heap.Holds good) {items : List Value}
    (inside : ∀ item ∈ items, good item) : heap.Keeps good writes (heap.addSequence items).2 where
  holds := {
    sequences := by
      intro place item member
      rw [sequence_push] at member
      split at member
      · exact inside item member
      · exact holds.sequences place item member
    entries := holds.entries }
  functions := rfl
  size := rfl
  entries _ _ := rfl

theorem sequence_setSequence (items : List Value) (changed place : Nat) :
    (heap.setSequence changed items).sequence place =
      if place = changed ∧ changed < heap.sequences.size then items else heap.sequence place := by
  simp only [setSequence, sequence, Array.getD_eq_getD_getElem?, Array.getElem?_setIfInBounds]
  by_cases same : changed = place
  · subst same
    by_cases bound : changed < heap.sequences.size
    · simp [bound]
    · simp [bound]
  · simp [same, Ne.symm same]

theorem entries_setEntries (entries : Entries) (changed place : Nat) :
    (heap.setEntries changed entries).entries place =
      if place = changed ∧ changed < heap.maps.size then entries else heap.entries place := by
  simp only [setEntries, Heap.entries, Array.getD_eq_getD_getElem?, Array.getElem?_setIfInBounds]
  by_cases same : changed = place
  · subst same
    by_cases bound : changed < heap.maps.size
    · simp [bound]
    · simp [bound]
  · simp [same, Ne.symm same]

theorem keeps_setSequence (holds : heap.Holds good) {items : List Value}
    (inside : ∀ item ∈ items, good item) (changed : Nat) :
    heap.Keeps good writes (heap.setSequence changed items) where
  holds := {
    sequences := by
      intro place item member
      rw [sequence_setSequence] at member
      split at member
      · exact inside item member
      · exact holds.sequences place item member
    entries := holds.entries }
  functions := rfl
  size := rfl
  entries _ _ := rfl

theorem keeps_setEntries (holds : heap.Holds good) {changed : Nat} (writable : writes changed)
    {entries : Entries} (inside : ∀ entry ∈ entries, good entry.2) :
    heap.Keeps good writes (heap.setEntries changed entries) where
  holds := {
    sequences := holds.sequences
    entries := by
      intro place entry member
      rw [entries_setEntries] at member
      split at member
      · exact inside entry member
      · exact holds.entries place entry member }
  functions := rfl
  size := by simp [setEntries]
  entries place hidden := by
    have other : place ≠ changed := fun same => hidden (same ▸ writable)
    simp [entries_setEntries, other]

end Heap

theorem Heap.member_good {good : Value → Prop}
    (opened : ∀ value : Value, value.isGiven = false → good value) {heap : Heap}
    (holds : heap.Holds good) {target value : Value} (known : good target) {name : Text}
    (found : heap.member target name = .value value) : good value := by
  have boolean (isMethod : Bool) (found : Member.ofBool isMethod = .value value) :
      good value := by
    cases isMethod with
    | false =>
        cases found
        exact opened _ rfl
    | true => cases found
  have entry (place : Nat) (found : Member.value
      ((heap.lookup (.text name) (heap.entries place)).getD .null) = .value value) :
      good value := by
    cases bound : heap.lookup (.text name) (heap.entries place) with
    | none =>
        simp only [bound, Option.getD_none, Member.value.injEq] at found
        exact found ▸ opened _ rfl
    | some entry =>
        simp only [bound, Option.getD_some, Member.value.injEq] at found
        exact found ▸ holds.lookup bound
  have integer (number : Int) (found : Member.ofInteger number name = .value value) :
      good value := by
    unfold Member.ofInteger at found
    split at found
    · cases found
      exact opened _ rfl
    · split at found
      · cases found
        exact opened _ rfl
      · split at found
        · cases found
          exact opened _ rfl
        · exact boolean _ found
  have double (found : Member.ofFloat target name = .value value) : good value := by
    unfold Member.ofFloat at found
    split at found
    · cases found
      exact known
    · split at found
      · cases found
        exact opened _ rfl
      · exact boolean _ found
  cases target with
  | map place | object place => exact entry place found
  | int number => exact integer number found
  | bool truth => exact integer truth.toInt found
  | float number => exact double found
  | notANumber serial => exact double found
  | text content => exact boolean _ found
  | list place => exact boolean _ found
  | tuple place => exact boolean _ found
  | _ =>
      cases found
      exact opened _ rfl

/-- What may come of a computation that only answers or fails. -/
def Gives {α : Type} (answers : α → Prop) (outcome : Except Failure α) : Prop :=
  ∀ value, outcome = .ok value → answers value

theorem Gives.bind {α β : Type} {answers : β → Prop} {first : Except Failure α}
    {next : α → Except Failure β}
    (second : ∀ value, first = .ok value → Gives answers (next value)) :
    Gives answers (first >>= next) := by
  cases first with
  | error failure => exact fun value found => by cases found
  | ok value => exact second value rfl

theorem Gives.ok {α : Type} {answers : α → Prop} {value : α} (answer : answers value) :
    Gives answers (.ok value) := by
  intro other found
  cases found
  exact answer

theorem Gives.error {α : Type} {answers : α → Prop} {failure : Failure} :
    Gives answers (.error failure) := by
  intro other found
  cases found

theorem Gives.map {α β : Type} {answers : β → Prop} {outcome : Except Failure α} {function : α → β}
    (each : ∀ value, outcome = .ok value → answers (function value)) :
    Gives answers (outcome.map function) := by
  cases outcome with
  | error failure => exact .error
  | ok value => exact .ok (each value rfl)

theorem Gives.weaken {α : Type} {answers wider : α → Prop} {outcome : Except Failure α}
    (gives : Gives answers outcome) (implies : ∀ value, answers value → wider value) :
    Gives wider outcome :=
  fun value found => implies value (gives value found)

namespace Action

/-- An action that does not look into functions, keeps to good values and writes where it may. -/
structure Tame {α : Type} (good : Value → Prop) (writes : Nat → Prop) (answers : α → Prop)
    (action : Action α) : Prop where
  keeps : ∀ heap : Heap, heap.Holds good → Gives
    (fun outcome : α × Heap => answers outcome.1 ∧ heap.Keeps good writes outcome.2) (action heap)
  blind : ∀ heap : Heap, heap.Holds good → ∀ functions,
    action (heap.withFunctions functions) =
      (action heap).map fun outcome => (outcome.1, outcome.2.withFunctions functions)

variable {α β : Type} {good : Value → Prop} {writes : Nat → Prop} {answers : α → Prop} {others : β → Prop}

theorem Tame.widen {action : Action α} {wider : Nat → Prop} (tame : Tame good writes answers action)
    (implies : ∀ place, writes place → wider place) : Tame good wider answers action where
  keeps heap holds outcome found := by
    obtain ⟨answer, kept⟩ := tame.keeps heap holds outcome found
    exact ⟨answer, kept.holds, kept.functions, kept.size,
      fun place hidden => kept.entries place fun written => hidden (implies place written)⟩
  blind := tame.blind

theorem tame_pure {value : α} (answer : answers value) : Tame good writes answers (pure value) where
  keeps _ holds _ found := by
    cases found
    exact ⟨answer, .refl holds⟩
  blind _ _ _ := rfl

theorem tame_fail (fault : OperandFault) : Tame good writes answers (fail fault) where
  keeps _ _ _ found := by cases found
  blind _ _ _ := rfl

theorem tame_lift {outcome : Except Failure α} (gives : Gives answers outcome) :
    Tame good writes answers (liftM outcome : Action α) := by
  cases outcome with
  | error failure => exact ⟨fun _ _ _ found => by (cases found), fun _ _ _ => rfl⟩
  | ok value => exact tame_pure (gives value rfl)

theorem Tame.bind {action : Action α} {next : α → Action β} (first : Tame good writes answers action)
    (second : ∀ value, answers value → Tame good writes others (next value)) :
    Tame good writes others (action >>= next) where
  keeps heap holds := by
    change Gives _ (action heap >>= _)
    refine .bind fun outcome found => ?_
    obtain ⟨answer, kept⟩ := first.keeps heap holds outcome found
    intro last reached
    obtain ⟨other, after⟩ := (second outcome.1 answer).keeps outcome.2 kept.holds last reached
    exact ⟨other, kept.trans after⟩
  blind heap holds functions := by
    change (action (heap.withFunctions functions) >>= _) = Except.map _ (action heap >>= _)
    rw [first.blind heap holds]
    cases found : action heap with
    | error failure => rfl
    | ok outcome =>
        obtain ⟨answer, kept⟩ := first.keeps heap holds outcome found
        exact (second outcome.1 answer).blind outcome.2 kept.holds functions

/-- An action that first looks at the heap, but not at its functions. -/
theorem tame_reading {next : Heap → Action α}
    (tame : ∀ heap : Heap, heap.Holds good → Tame good writes answers (next heap))
    (blind : ∀ heap functions, next (heap.withFunctions functions) = next heap) :
    Tame good writes answers (get >>= next) where
  keeps heap holds := (tame heap holds).keeps heap holds
  blind heap holds functions := by
    change next (heap.withFunctions functions) (heap.withFunctions functions) =
      Except.map _ (next heap heap)
    rw [blind]
    exact (tame heap holds).blind heap holds functions

theorem tame_items (place : Nat) :
    Tame good writes (fun items => ∀ item ∈ items, good item) (items place) where
  keeps _ holds _ found := by
    cases found
    exact ⟨holds.sequences place, .refl holds⟩
  blind _ _ _ := rfl

variable (opened : ∀ value : Value, value.isGiven = false → good value)

include opened

theorem tame_newList {items : List Value} (inside : ∀ item ∈ items, good item) :
    Tame good writes good (newList items) where
  keeps _ holds _ found := by
    cases found
    exact ⟨opened _ rfl, Heap.keeps_addSequence holds inside⟩
  blind _ _ _ := rfl

theorem tame_newTuple {items : List Value} (inside : ∀ item ∈ items, good item) :
    Tame good writes good (newTuple items) where
  keeps _ holds _ found := by
    cases found
    exact ⟨opened _ rfl, Heap.keeps_addSequence holds inside⟩
  blind _ _ _ := rfl

end Action

/-- The result of arithmetic is a scalar. -/
abbrev GivesScalar (outcome : Except Failure Value) : Prop :=
  Gives (fun value => value.isScalar = true) outcome

theorem Numeric.isScalar_toValue (number : Numeric) : number.toValue.isScalar = true := by
  cases number <;> rfl

theorem Value.isScalar_of_numeric {value : Value} {number : Numeric}
    (found : value.numeric = .ok number) : value.isScalar = true := by
  cases value <;> first | rfl | cases found

theorem Value.isScalar_of_isNotANumber {value : Value} (none : value.isNotANumber = true) :
    value.isScalar = true := by
  cases value <;> first | rfl | cases none

namespace Arithmetic

theorem gives_unary (function : Numeric → Except Failure Numeric) (operand : Value) :
    GivesScalar (unary function operand) :=
  .bind fun _ _ => .bind fun _ _ => .ok (Numeric.isScalar_toValue _)

theorem gives_whole (function : Numeric → Except Failure Numeric) (operand : Value) :
    GivesScalar (whole function operand) := by
  unfold whole
  split
  · rename_i none
    exact .ok (Value.isScalar_of_isNotANumber none)
  · exact gives_unary function operand

theorem gives_gamma (function : Numeric → Except Failure Numeric) (operand : Value) :
    GivesScalar (gamma function operand) := by
  refine .bind fun result found => .ok ?_
  split
  · rfl
  · exact gives_unary function operand result found

theorem gives_binary (function : Numeric → Numeric → Except Failure Numeric)
    (left right : Value) : GivesScalar (binary function left right) :=
  .bind fun _ _ => .bind fun _ _ => .bind fun _ _ =>
    Gives.ok (Numeric.isScalar_toValue _)

theorem gives_positive (operand : Value) : GivesScalar (positive operand) := by
  unfold positive
  split
  · split
    · exact .ok rfl
    · refine .ok ?_
      rename_i content _
      cases Reading.double? content <;> rfl
  · split
    · rename_i none
      exact .ok (Value.isScalar_of_isNotANumber none)
    · exact gives_unary .ok _

theorem gives_sign (operand : Value) : GivesScalar (sign operand) := by
  refine .bind fun number found => ?_
  split
  · exact .ok rfl
  · exact .ok rfl
  · exact .ok (Value.isScalar_of_numeric found)

theorem gives_fixedLogarithm (log : Float → Float) (operand : Value) :
    GivesScalar (fixedLogarithm log operand) :=
  .bind fun _ _ => .bind fun _ _ => .ok rfl

theorem gives_logarithm (operand base : Value) : GivesScalar (logarithm operand base) := by
  refine .bind fun _ _ => .bind fun _ _ => .bind fun _ _ => .bind fun _ _ => ?_
  split
  · exact .error
  · exact .ok rfl

theorem gives_power (base exponent : Value) : GivesScalar (power base exponent) :=
  .bind fun _ _ => .bind fun _ _ => .bind fun _ _ => .ok rfl

theorem gives_angle (ordinate abscissa : Value) : GivesScalar (angle ordinate abscissa) :=
  .bind fun _ _ => .bind fun _ _ => .ok rfl

theorem gives_hypotenuse (operands : List Value) : GivesScalar (hypotenuse operands) :=
  .bind fun _ _ => .ok rfl

theorem gives_sum (heap : Heap) (operand : Value) : GivesScalar (sum heap operand) := by
  unfold sum
  split
  · exact .error
  · exact .map fun number _ => Numeric.isScalar_toValue number

theorem gives_roundTo (operand places : Value) : GivesScalar (roundTo operand places) := by
  unfold roundTo
  split
  · exact gives_whole _ _
  · split
    · exact .ok rfl
    · refine .bind fun _ _ => .bind fun whole _ => ?_
      split
      · refine .bind fun _ _ => ?_
        exact .bind fun _ _ => .bind fun _ _ => .bind fun _ _ =>
          .bind fun _ _ => .bind fun _ _ => .ok rfl
      · exact .ok rfl

end Arithmetic

open Formula.Action

variable {good : Value → Prop} {writes : Nat → Prop}

theorem tame_joined (left right : Nat) (make : List Value → Action Value)
    (made : ∀ items : List Value, (∀ item ∈ items, good item) → Tame good writes good (make items)) :
    Tame good writes good (do make ((← Action.items left) ++ (← Action.items right))) := by
  refine (tame_items left).bind fun lefts leftGood => ?_
  refine (tame_items right).bind fun rights rightGood => made _ fun item member => ?_
  rcases List.mem_append.mp member with inLeft | inRight
  · exact leftGood item inLeft
  · exact rightGood item inRight

theorem Arithmetic.mem_repetition {items result : List Value} {count : Int}
    (found : repetition items count = .ok result) : ∀ item ∈ result, item ∈ items := by
  intro item member
  unfold repetition at found
  split at found
  · cases found
  · simp only [Except.ok.injEq] at found
    subst found
    obtain ⟨copy, copies, inside⟩ := List.mem_flatten.mp member
    rwa [List.eq_of_mem_replicate copies] at inside

theorem Arithmetic.tame_copies (place : Nat) (count : Int) (make : List Value → Action Value)
    (made : ∀ items : List Value, (∀ item ∈ items, good item) → Tame good writes good (make items)) :
    Tame good writes good (do make (← repetition (← Action.items place) count)) := by
  refine (tame_items place).bind fun items inside => ?_
  have copies : Tame good writes (fun result => ∀ item ∈ result, good item)
      (liftM (repetition items count) : Action (List Value)) :=
    tame_lift fun result found item member => inside item (mem_repetition found item member)
  exact copies.bind made

section

variable (heap : Heap) (functions : Array DefinedFunction)

theorem Arithmetic.sum_withFunctions :
    sum (heap.withFunctions functions) = sum heap := rfl

theorem Sequence.length_withFunctions :
    length (heap.withFunctions functions) = length heap := by
  funext value
  simp only [length, Heap.withFunctions_sequence, Heap.withFunctions_spelled]

theorem Sequence.contains_withFunctions :
    contains (heap.withFunctions functions) = contains heap := by
  funext value collection
  cases collection <;> simp [contains]

theorem Sequence.indexOf_withFunctions :
    indexOf (heap.withFunctions functions) = indexOf heap := by
  funext value collection
  cases collection <;> simp [indexOf]

theorem Sequence.join_withFunctions :
    join (heap.withFunctions functions) = join heap := by
  funext separator collection
  simp only [join, Heap.withFunctions_sequence, Heap.withFunctions_spelled]

theorem Sequence.index_withFunctions :
    index (heap.withFunctions functions) = index heap := by
  funext collection position
  simp only [index, Heap.withFunctions_sequence, Heap.withFunctions_entries,
    Heap.withFunctions_lookup]

theorem Sequence.best_withFunctions (test : OrderTest) (champion : Value) (rest : List Value) :
    best (heap.withFunctions functions) test champion rest = best heap test champion rest := by
  induction rest generalizing champion with
  | nil => rfl
  | cons next rest ih => simp only [best, ih, Heap.withFunctions_test]

theorem Sequence.extremum_withFunctions :
    extremum (heap.withFunctions functions) = extremum heap := by
  funext test limit values
  simp only [extremum, best_withFunctions]
  rfl

end

variable (opened : ∀ value : Value, value.isGiven = false → good value)

include opened

theorem tame_read {α : Type} {outcome : Except Failure α} (make : α → Value)
    (made : ∀ value, (make value).isGiven = false) :
    Tame good writes good (do return make (← outcome) : Action Value) := by
  have lifted : Tame good writes (fun _ => True) (liftM outcome : Action α) :=
    tame_lift fun _ _ => trivial
  exact lifted.bind fun _ _ => tame_pure (opened _ (made _))

theorem tame_scalar {outcome : Except Failure Value} (gives : GivesScalar outcome) :
    Tame good writes good (liftM outcome : Action Value) :=
  tame_lift (gives.weaken fun value scalar => opened value (Value.isGiven_of_isScalar scalar))

theorem Arithmetic.tame_add (left right : Value) : Tame good writes good (add left right) := by
  unfold add
  split
  · exact tame_pure (opened _ rfl)
  · exact tame_joined _ _ _ fun _ inside => tame_newList opened inside
  · exact tame_joined _ _ _ fun _ inside => tame_newTuple opened inside
  · exact tame_scalar opened (gives_binary _ _ _)

theorem Arithmetic.tame_multiply (left right : Value) : Tame good writes good (multiply left right) := by
  have repeats (items : Value) (count : Numeric) : Tame good writes good (repeated items count) := by
    unfold repeated
    split
    · exact tame_read opened .text fun _ => rfl
    · exact tame_copies _ _ _ fun _ inside => tame_newList opened inside
    · exact tame_copies _ _ _ fun _ inside => tame_newTuple opened inside
    · exact tame_fail _
  unfold multiply
  split
  · exact repeats _ _
  · exact repeats _ _
  · exact tame_scalar opened (gives_binary _ _ _)

theorem Sequence.tame_concat (left right : Value) : Tame good writes good (concat left right) := by
  unfold concat
  split
  · exact tame_joined _ _ _ fun _ inside => tame_newList opened inside
  · exact tame_reading (fun _ _ => tame_pure (opened _ rfl)) fun _ _ => by simp

theorem Sequence.gives_index {heap : Heap} (holds : heap.Holds good) (collection position : Value) :
    Gives good (index heap collection position) := by
  refine .bind fun place _ => ?_
  split
  · exact .ok (opened _ rfl)
  · split
    · rename_i content
      refine .ok (opened _ ?_)
      cases content[place.toNat]? <;> rfl
    · refine .ok ?_
      rename_i items
      cases found : (heap.sequence items)[place.toNat]? with
      | none => exact opened _ rfl
      | some item => exact holds.sequences items item (List.mem_of_getElem? found)
    · refine .ok ?_
      rename_i items
      cases found : (heap.sequence items)[place.toNat]? with
      | none => exact opened _ rfl
      | some item => exact holds.sequences items item (List.mem_of_getElem? found)
    · rename_i entries
      simp only
      split
      · split
        · rename_i value found
          exact .ok (holds.lookup found)
        · exact .error
      · exact .ok (opened _ rfl)
    · exact .error

omit opened in
theorem Sequence.gives_best (heap : Heap) (test : OrderTest) {champion : Value}
    (first : good champion) {rest : List Value} (others : ∀ value ∈ rest, good value) :
    Gives good (best heap test champion rest) := by
  induction rest generalizing champion with
  | nil => exact .ok first
  | cons next rest ih =>
      refine .bind fun beaten _ => ih ?_ fun value member => others value (by simp [member])
      split
      · exact others next (by simp)
      · exact first

theorem Sequence.gives_extremum {heap : Heap} (holds : heap.Holds good) (test : OrderTest)
    (limit : Float) {values : List Value} (inside : ∀ value ∈ values, good value) :
    Gives good (extremum heap test limit values) := by
  unfold extremum
  simp only
  split
  · exact .ok (opened _ rfl)
  · rename_i first rest chosen
    have contestant : ∀ value ∈ first :: rest, good value := by
      intro value member
      rw [← chosen] at member
      split at member
      · rename_i only
        cases found : only.sequence? with
        | none =>
            rw [found] at member
            exact inside value member
        | some place =>
            rw [found] at member
            exact holds.sequences place value member
      · exact inside value member
    exact gives_best heap test (contestant first List.mem_cons_self)
      fun value member => contestant value (List.mem_cons_of_mem first member)

omit opened in
theorem Sequence.assign_map (place : Nat) (key value : Value) (heap : Heap) :
    assign (.map place) key value heap =
      if heap.isKey key = true then
        .ok (value, heap.setEntries place (heap.bind key value (heap.entries place)))
      else .error (.operand .wrongType) := by
  change (if heap.isKey key = true then _ else _ : Action Value) heap = _
  split <;> rfl

omit opened in
theorem Sequence.replace_apply (value : Value) (place : Nat) (position : Int) (heap : Heap) :
    assign.replace value place position heap =
      match placeOf? (heap.sequence place).length position with
      | some index => .ok (value, heap.setSequence place ((heap.sequence place).set index value))
      | none => .error (.operand .outOfRange) := by
  change (match placeOf? (heap.sequence place).length position with
    | some index => _
    | none => _ : Action Value) heap = _
  cases placeOf? (heap.sequence place).length position <;> rfl

omit opened in
theorem Sequence.tame_replace {value : Value} (inside : good value) (place : Nat)
    (position : Int) : Tame good writes good (assign.replace value place position) where
  keeps heap holds := by
    rw [replace_apply]
    split
    · refine .ok ⟨inside, Heap.keeps_setSequence holds (fun item member => ?_) place⟩
      rcases List.mem_or_eq_of_mem_set member with old | new
      · exact holds.sequences place item old
      · exact new ▸ inside
    · exact .error
  blind heap holds functions := by
    rw [replace_apply, replace_apply, Heap.withFunctions_sequence]
    split <;> rfl

omit opened in
theorem Sequence.tame_assign {collection value : Value}
    (writable : ∀ place, collection = .map place → writes place) (inside : good value)
    (key : Value) : Tame good writes good (assign collection key value) := by
  cases collection with
  | map place =>
      constructor
      · intro heap holds
        rw [assign_map]
        split
        · refine .ok ⟨inside, Heap.keeps_setEntries holds (writable place rfl) fun entry member => ?_⟩
          rcases Heap.mem_bind member with new | old
          · exact new ▸ inside
          · exact holds.entries place entry old
        · exact .error
      · intro heap holds functions
        rw [assign_map, assign_map, Heap.withFunctions_isKey]
        split
        · simp only [Heap.withFunctions_bind, Heap.withFunctions_entries]
          rfl
        · rfl
  | list place =>
      cases key <;> first | exact tame_replace inside place _ | exact tame_fail .wrongType
  | _ => exact tame_fail .wrongType

/-- Every built-in function that calls no other is tame, and all but two write nothing. -/
theorem Builtin.tame_apply (function : Builtin) {arguments : List Value}
    (inside : ∀ argument ∈ arguments, good argument)
    (writable : (Value.builtin function).rebinds = true → ∀ place, .map place ∈ arguments →
      writes place) :
    Tame good writes good (function.apply arguments) := by
  unfold apply
  apply tame_reading
  · intro heap holds
    split
    all_goals first
      | exact tame_scalar opened (Arithmetic.gives_unary _ _)
      | exact tame_scalar opened (Arithmetic.gives_fixedLogarithm _ _)
      | exact tame_scalar opened (Arithmetic.gives_logarithm _ _)
      | exact tame_scalar opened (Arithmetic.gives_whole _ _)
      | exact tame_scalar opened (Arithmetic.gives_gamma _ _)
      | exact tame_scalar opened (Arithmetic.gives_positive _)
      | exact tame_scalar opened (Arithmetic.gives_sign _)
      | exact tame_scalar opened (Arithmetic.gives_binary _ _ _)
      | exact tame_scalar opened (Arithmetic.gives_power _ _)
      | exact tame_scalar opened (Arithmetic.gives_angle _ _)
      | exact tame_scalar opened (Arithmetic.gives_hypotenuse _)
      | exact tame_scalar opened (Arithmetic.gives_sum _ _)
      | exact tame_scalar opened (Arithmetic.gives_roundTo _ _)
      | exact tame_read opened _ fun _ => rfl
      | exact tame_pure (opened _ rfl)
      | exact tame_pure (inside _ (.tail _ (.head _)))
      | exact tame_fail _
      | skip
    · exact Arithmetic.tame_add opened _ _
    · exact Arithmetic.tame_multiply opened _ _
    · exact Sequence.tame_concat opened _ _
    · exact tame_lift (Sequence.gives_index opened holds _ _)
    · exact tame_lift (Sequence.gives_extremum opened holds _ _ inside)
    · exact tame_lift (Sequence.gives_extremum opened holds _ _ inside)
    · refine tame_pure ?_
      split
      · exact inside _ (.tail _ (.head _))
      · exact inside _ (.tail _ (.tail _ (.head _)))
    · refine Sequence.tame_assign (fun place found => ?_) (inside _ (.tail _ (.head _))) _
      exact writable rfl place (found ▸ .tail _ (.tail _ (.head _)))
    · refine Sequence.tame_assign (fun place found => ?_) (inside _ (.tail _ (.tail _ (.head _)))) _
      exact writable rfl place (found ▸ .head _)
  · intro heap functions
    simp only [Heap.withFunctions_truth, Heap.withFunctions_same, Heap.withFunctions_test,
      Heap.withFunctions_spelled, Arithmetic.sum_withFunctions, Sequence.length_withFunctions,
      Sequence.contains_withFunctions, Sequence.indexOf_withFunctions,
      Sequence.join_withFunctions, Sequence.index_withFunctions,
      Sequence.extremum_withFunctions]

end Formula
