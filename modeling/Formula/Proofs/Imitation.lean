import Formula.Proofs.Reflection

/-!
Built-in functions on heaps that reflect each other: on moved arguments they give the moved result, and
leave heaps that reflect each other.
-/

namespace Formula

namespace Arithmetic

variable (moves : Renaming) (operand : Value)

@[simp] theorem unary_move (function : Numeric → Except Failure Numeric) :
    unary function (operand.move moves) = unary function operand := by
  rw [unary, unary, Value.numeric_move]

@[simp] theorem whole_move (function : Numeric → Except Failure Numeric) :
    whole function (operand.move moves) = whole function operand := by
  cases operand <;> rfl

@[simp] theorem gamma_move (function : Numeric → Except Failure Numeric) :
    gamma function (operand.move moves) = gamma function operand := by
  rw [gamma, gamma, unary_move]

@[simp] theorem binary_move (function : Numeric → Numeric → Except Failure Numeric) (other : Value) :
    binary function (operand.move moves) (other.move moves) = binary function operand other := by
  rw [binary, binary, Value.numeric_move, Value.numeric_move]

@[simp] theorem positive_move : positive (operand.move moves) = positive operand := by
  cases operand <;> rfl

@[simp] theorem sign_move : sign (operand.move moves) = sign operand := by
  cases operand <;> rfl

@[simp] theorem fixedLogarithm_move (log : Float → Float) :
    fixedLogarithm log (operand.move moves) = fixedLogarithm log operand := by
  rw [fixedLogarithm, fixedLogarithm, Value.numeric_move]

@[simp] theorem logarithm_move (base : Value) :
    logarithm (operand.move moves) (base.move moves) = logarithm operand base := by
  rw [logarithm, logarithm, Value.numeric_move, Value.numeric_move]

@[simp] theorem double_move : double (operand.move moves) = double operand := by
  rw [double, double, Value.numeric_move]

@[simp] theorem power_move (exponent : Value) :
    power (operand.move moves) (exponent.move moves) = power operand exponent := by
  rw [power, power, double_move, double_move]

@[simp] theorem angle_move (abscissa : Value) :
    angle (operand.move moves) (abscissa.move moves) = angle operand abscissa := by
  rw [angle, angle, double_move, double_move]

@[simp] theorem hypotenuse_move (operands : List Value) :
    hypotenuse (operands.map (·.move moves)) = hypotenuse operands := by
  have same : (fun operand : Value => double (operand.move moves)) = double :=
    funext fun operand => double_move moves operand
  rw [hypotenuse, hypotenuse, List.mapM_map]
  exact congrArg (· >>= _) (congrArg (List.mapM · operands) same)

@[simp] theorem roundTo_move (places : Value) :
    roundTo (operand.move moves) (places.move moves) = roundTo operand places := by
  have asks : asksWhole (places.move moves) = asksWhole places := by cases places <;> rfl
  have rounds (count : Int) : roundPlaces (operand.move moves) count = roundPlaces operand count := by
    have read : readDouble (operand.move moves) = readDouble operand := by cases operand <;> rfl
    rw [roundPlaces, roundPlaces, read]
  simp only [roundTo, asks, whole_move, Value.isNotANumber_move, Value.numeric_move, rounds]

theorem sumFrom_move (total : Numeric) (items : List Value) :
    sumFrom total (items.map (·.move moves)) = sumFrom total items := by
  induction items generalizing total with
  | nil => rfl
  | cons item rest ih => simp only [List.map_cons, sumFrom, Value.numeric_move, ih]

end Arithmetic

theorem Sequence.position_move (moves : Renaming) (index : Value) :
    position (index.move moves) = position index := by
  cases index <;> rfl

namespace Heap.Renamed

variable {moves : Renaming} {good : Value → Prop} {one two : Heap}
  (renamed : one.Renamed moves good two)

include renamed

/-- The sequence of a moved value. -/
theorem sequence {value : Value} {place : Nat} (known : good value)
    (here : value.sequence? = some place) :
    (value.move moves).sequence?.map two.sequence = some ((one.sequence place).map (·.move moves)) := by
  rw [Value.sequence?_move, here]
  exact congrArg some (renamed.sequences value place known (Value.place?_of_sequence? here))

theorem sum {value : Value} (known : good value) :
    Arithmetic.sum two (value.move moves) = Arithmetic.sum one value := by
  rw [Arithmetic.sum, Arithmetic.sum, Value.sequence?_move]
  cases here : value.sequence? with
  | none => rfl
  | some place =>
      have items := renamed.sequences value place known (Value.place?_of_sequence? here)
      simp only [Option.map_some, items, Arithmetic.sumFrom_move]

theorem length {value : Value} (known : good value) :
    Sequence.length two (value.move moves) = Sequence.length one value := by
  rw [Sequence.length, Sequence.length, Value.sequence?_move]
  cases here : value.sequence? with
  | none => simp only [Option.map_none, renamed.spelled known]
  | some place =>
      have items := renamed.sequences value place known (Value.place?_of_sequence? here)
      simp only [Option.map_some, items, List.length_map]

omit renamed in
theorem any_items {items : List Value} {testOne testTwo : Value → Bool}
    (same : ∀ item ∈ items, testTwo (item.move moves) = testOne item) :
    (items.map (·.move moves)).any testTwo = items.any testOne := by
  induction items with
  | nil => rfl
  | cons item rest ih =>
      rw [List.forall_mem_cons] at same
      rw [List.map_cons, List.any_cons, List.any_cons, same.1, ih same.2]

omit renamed in
theorem find_items {items : List Value} {testOne testTwo : Value → Bool}
    (same : ∀ item ∈ items, testTwo (item.move moves) = testOne item) :
    (items.map (·.move moves)).findIdx? testTwo = items.findIdx? testOne := by
  induction items with
  | nil => rfl
  | cons item rest ih =>
      rw [List.forall_mem_cons] at same
      rw [List.map_cons, List.findIdx?_cons, List.findIdx?_cons, same.1, ih same.2]

theorem contains {value collection : Value} (known : good value) (knownIn : good collection) :
    Sequence.contains two (value.move moves) (collection.move moves) =
      Sequence.contains one value collection := by
  have spelled := renamed.spelled known
  have items {place : Nat} (here : collection.place? = some (.sequence place)) :
      (two.sequence (moves.sequences.place place)).any (two.same (value.move moves)) =
        (one.sequence place).any (one.same value) := by
    rw [renamed.sequences _ place knownIn here]
    exact any_items fun item member =>
      renamed.same known (renamed.items _ place knownIn here item member)
  cases collection with
  | text content => exact congrArg (fun part => Except.ok (Text.indexOf? part content).isSome) spelled
  | tuple place => exact congrArg Except.ok (items rfl)
  | list place => exact congrArg Except.ok (items rfl)
  | map place =>
      refine congrArg Except.ok ?_
      rw [renamed.maps _ place knownIn rfl, Entries.move, List.any_map, Bool.eq_iff_iff,
        List.any_eq_true, List.any_eq_true]
      refine exists_congr fun entry => and_congr_right fun member => ?_
      rw [Function.comp, renamed.same known (renamed.entries _ place knownIn rfl entry member).1]
  | _ => rfl

theorem indexOf {value collection : Value} (known : good value) (knownIn : good collection) :
    Sequence.indexOf two (value.move moves) (collection.move moves) =
      Sequence.indexOf one value collection := by
  have spelled := renamed.spelled known
  have items {place : Nat} (here : collection.place? = some (.sequence place)) :
      (two.sequence (moves.sequences.place place)).findIdx? (fun item => two.same item (value.move moves)) =
        (one.sequence place).findIdx? fun item => one.same item value := by
    rw [renamed.sequences _ place knownIn here]
    exact find_items fun item member =>
      renamed.same (renamed.items _ place knownIn here item member) known
  cases collection with
  | text content =>
      simp only [Sequence.indexOf, Value.move_text, spelled]
  | tuple place => simp only [Sequence.indexOf, Value.move_tuple, items rfl]
  | list place => simp only [Sequence.indexOf, Value.move_list, items rfl]
  | _ => rfl

theorem join {separator collection : Value} (known : good separator) (knownIn : good collection) :
    Sequence.join two (separator.move moves) (collection.move moves) =
      Sequence.join one separator collection := by
  rw [Sequence.join, Sequence.join, Value.sequence?_move]
  cases here : collection.sequence? with
  | none => rfl
  | some place =>
      have place? := Value.place?_of_sequence? here
      have items : (two.sequence (moves.sequences.place place)).map two.spelled =
          (one.sequence place).map one.spelled := by
        rw [renamed.sequences _ place knownIn place?, List.map_map]
        exact List.map_congr_left fun item member =>
          renamed.spelled (renamed.items _ place knownIn place? item member)
      simp only [Option.map_some, items, renamed.spelled known]

theorem best (test : OrderTest) {champion : Value} (known : good champion) {rest : List Value}
    (others : ∀ value ∈ rest, good value) :
    Sequence.best two test (champion.move moves) (rest.map (·.move moves)) =
      (Sequence.best one test champion rest).map (·.move moves) := by
  induction rest generalizing champion with
  | nil => rfl
  | cons next rest ih =>
      rw [List.forall_mem_cons] at others
      simp only [List.map_cons, Sequence.best, renamed.test test others.1 known]
      cases one.test test next champion with
      | error failure => rfl
      | ok beaten =>
          cases beaten with
          | true => exact ih others.1 others.2
          | false => exact ih known others.2

theorem extremum (test : OrderTest) (limit : Float) {values : List Value}
    (known : ∀ value ∈ values, good value) :
    Sequence.extremum two test limit (values.map (·.move moves)) =
      (Sequence.extremum one test limit values).map (·.move moves) := by
  rcases values with _ | ⟨first, _ | ⟨second, rest⟩⟩
  · rfl
  · have only := known first List.mem_cons_self
    simp only [Sequence.extremum, List.map_cons, List.map_nil, Value.sequence?_move]
    cases here : first.sequence? with
    | none => rfl
    | some place =>
        have place? := Value.place?_of_sequence? here
        have inside := renamed.items first place only place?
        simp only [Option.map_some, Option.getD_some, renamed.sequences first place only place?]
        cases contestants : one.sequence place with
        | nil => rfl
        | cons champion rest =>
            rw [contestants, List.forall_mem_cons] at inside
            exact renamed.best test inside.1 inside.2
  · rw [List.forall_mem_cons] at known
    exact renamed.best test known.1 known.2

theorem index {collection : Value} (known : good collection) (position : Value)
    (number : ∀ place : Int, good (.int place)) :
    Sequence.index two (collection.move moves) (position.move moves) =
      (Sequence.index one collection position).map (·.move moves) := by
  have item {place : Nat} (here : collection.place? = some (.sequence place)) (slot : Nat) :
      (two.sequence (moves.sequences.place place))[slot]?.getD .null =
        ((one.sequence place)[slot]?.getD .null).move moves := by
    rw [renamed.sequences _ place known here, List.getElem?_map]
    cases (one.sequence place)[slot]? <;> rfl
  rw [Sequence.index, Sequence.index, Sequence.position_move]
  cases Sequence.position position with
  | error failure => rfl
  | ok place =>
      change (if place < 0 then _ else _) = Except.map _ (if place < 0 then _ else _)
      split
      · rfl
      · cases collection with
        | text content =>
            refine congrArg Except.ok ?_
            cases content[place.toNat]? <;> rfl
        | tuple items => exact congrArg Except.ok (item rfl place.toNat)
        | list items => exact congrArg Except.ok (item rfl place.toNat)
        | map entries =>
            have found : two.lookup (.int place) ((one.entries entries).move moves) =
                (one.lookup (.int place) (one.entries entries)).map (·.move moves) :=
              renamed.lookup (number place) fun entry member =>
                (renamed.entries _ entries known rfl entry member).1
            have size : ((one.entries entries).move moves).length = (one.entries entries).length :=
              List.length_map _
            simp only [Value.move_map, renamed.maps _ entries known rfl, size, found]
            split
            · cases one.lookup (.int place) (one.entries entries) <;> rfl
            · rfl
        | _ => rfl

end Heap.Renamed

namespace Mirror.World

open Formula.Action

variable {mirror : Mirror} {world : mirror.World} {one two : Heap} {α β : Type}

/-- What goes together of an action on the one heap and its counterpart on the other: related results in
heaps that reflect each other, or the same failure. -/
inductive Outcome (world : mirror.World) (post : mirror.World → α → β → Prop) :
    Except Failure (α × Heap) → Except Failure (β × Heap) → Prop
  | ok {later : mirror.World} {left : α} {right : β} {one two : Heap} (reaches : world.Reaches later)
      (reflects : later.Reflects one two) (related : post later left right) :
      Outcome world post (.ok (left, one)) (.ok (right, two))
  | error (failure : Failure) : Outcome world post (.error failure) (.error failure)

/-- What an action gives anyway may be added to what goes together. -/
theorem Outcome.also {post : mirror.World → α → β → Prop} {left : Except Failure (α × Heap)}
    {right : Except Failure (β × Heap)} {also : α → Prop} (outcome : world.Outcome post left right)
    (gives : ∀ value heap, left = .ok (value, heap) → also value) :
    world.Outcome (fun later one two => post later one two ∧ also one) left right := by
  cases outcome with
  | ok reaches reflects related => exact .ok reaches reflects ⟨related, gives _ _ rfl⟩
  | error failure => exact .error failure

/-- A known value and the moved one. -/
def Same (world : mirror.World) (left right : Value) : Prop :=
  right = left.move mirror.moves ∧ world.Knows left

section

variable (reflects : world.Reflects one two)

include reflects

theorem outcome_known {value : Value} (known : world.Knows value) :
    world.Outcome Same ((pure value : Action Value) one)
      ((pure (value.move mirror.moves) : Action Value) two) :=
  .ok (.refl world) reflects ⟨rfl, known⟩

/-- A scalar that comes out the same. -/
theorem outcome_same {left right : Value} (scalar : left.isScalar = true) (same : right = left) :
    world.Outcome Same ((pure left : Action Value) one) ((pure right : Action Value) two) := by
  subst same
  exact .ok (.refl world) reflects ⟨(Value.move_scalar _ scalar).symm, knows_scalar scalar⟩

theorem outcome_moved {left right : Except Failure Value} (gives : Gives world.Knows left)
    (same : right = left.map (·.move mirror.moves)) :
    world.Outcome Same ((liftM left : Action Value) one) ((liftM right : Action Value) two) := by
  subst same
  cases left with
  | error failure => exact .error failure
  | ok value => exact .ok (.refl world) reflects ⟨rfl, gives value rfl⟩

theorem outcome_scalar {left right : Except Failure Value} (gives : GivesScalar left)
    (same : right = left) :
    world.Outcome Same ((liftM left : Action Value) one) ((liftM right : Action Value) two) := by
  refine outcome_moved reflects (gives.weaken fun _ => knows_scalar) ?_
  rw [same]
  cases left with
  | error failure => rfl
  | ok value => exact congrArg Except.ok (Value.move_scalar _ (gives value rfl)).symm

/-- An action that only makes a scalar of what it reads. -/
theorem outcome_read {left right : Except Failure α} (make : α → Value)
    (scalar : ∀ result, (make result).isScalar = true) (same : right = left) :
    world.Outcome Same ((do return make (← left) : Action Value) one)
      ((do return make (← right) : Action Value) two) := by
  subst same
  cases right with
  | error failure => exact .error failure
  | ok result =>
      exact .ok (.refl world) reflects ⟨(Value.move_scalar _ (scalar result)).symm,
        knows_scalar (scalar result)⟩

omit reflects in
theorem outcome_fail (fault : OperandFault) :
    world.Outcome Same ((fail fault : Action Value) one) ((fail fault : Action Value) two) :=
  .error _

omit reflects in
/-- An action that looks at the heap first. -/
theorem outcome_reading {left right : Heap → Action α}
    {post : mirror.World → α → α → Prop} (each : world.Outcome post (left one one) (right two two)) :
    world.Outcome post ((do let heap ← get; left heap : Action α) one)
      ((do let heap ← get; right heap : Action α) two) :=
  each

theorem outcome_newList {items : List Value} (inside : ∀ item ∈ items, world.Knows item) :
    world.Outcome Same (newList items one) (newList (items.map (·.move mirror.moves)) two) := by
  refine .ok world.reaches_addSequence (reflects.addSequence inside) ⟨?_, ?_⟩
  · exact congrArg Value.list reflects.place_sequences.symm
  · rw [reflects.sizeSequences]
    exact world.addSequence_hasSequence

theorem outcome_newTuple {items : List Value} (inside : ∀ item ∈ items, world.Knows item) :
    world.Outcome Same (newTuple items one) (newTuple (items.map (·.move mirror.moves)) two) := by
  refine .ok world.reaches_addSequence (reflects.addSequence inside) ⟨?_, ?_⟩
  · exact congrArg Value.tuple reflects.place_sequences.symm
  · rw [reflects.sizeSequences]
    exact world.addSequence_hasSequence

theorem joined {left right : Nat} (hasLeft : world.HasSequence left) (hasRight : world.HasSequence right) :
    (∀ item ∈ one.sequence left ++ one.sequence right, world.Knows item) ∧
      two.sequence (mirror.moves.sequences.place left) ++
          two.sequence (mirror.moves.sequences.place right) =
        (one.sequence left ++ one.sequence right).map (·.move mirror.moves) := by
  constructor
  · intro item member
    rcases List.mem_append.mp member with inside | inside
    · exact reflects.items left hasLeft item inside
    · exact reflects.items right hasRight item inside
  · rw [reflects.sequences left hasLeft, reflects.sequences right hasRight, List.map_append]

theorem outcome_add {left right : Value} (knownLeft : world.Knows left) (knownRight : world.Knows right) :
    world.Outcome Same (Arithmetic.add left right one)
      (Arithmetic.add (left.move mirror.moves) (right.move mirror.moves) two) := by
  have numbers : world.Outcome Same ((liftM (Arithmetic.binary Numeric.add left right) : Action Value) one)
      ((liftM (Arithmetic.binary Numeric.add (left.move mirror.moves) (right.move mirror.moves)) :
        Action Value) two) :=
    outcome_scalar reflects (Arithmetic.gives_binary _ _ _) (Arithmetic.binary_move ..)
  cases left with
  | text content =>
      cases right with
      | text other => exact outcome_known reflects trivial
      | _ => exact numbers
  | list here =>
      cases right with
      | list there =>
          obtain ⟨inside, same⟩ := joined reflects knownLeft knownRight
          have made := outcome_newList reflects inside
          rw [← same] at made
          exact made
      | _ => exact numbers
  | tuple here =>
      cases right with
      | tuple there =>
          obtain ⟨inside, same⟩ := joined reflects knownLeft knownRight
          have made := outcome_newTuple reflects inside
          rw [← same] at made
          exact made
      | _ => exact numbers
  | _ => exact numbers

omit reflects in
theorem repetition_move (items : List Value) (count : Int) :
    Arithmetic.repetition (items.map (·.move mirror.moves)) count =
      (Arithmetic.repetition items count).map (List.map (·.move mirror.moves)) := by
  simp only [Arithmetic.repetition, List.length_map, List.isEmpty_map]
  split
  · rfl
  · simp only [Except.map, List.map_flatten, List.map_replicate]

theorem outcome_copies {place : Nat} (has : world.HasSequence place) (count : Int)
    {make : List Value → Action Value}
    (made : ∀ items : List Value, (∀ item ∈ items, world.Knows item) →
      world.Outcome Same (make items one) (make (items.map (·.move mirror.moves)) two)) :
    world.Outcome Same ((do make (← Arithmetic.repetition (← items place) count) : Action Value) one)
      ((do make (← Arithmetic.repetition (← items (mirror.moves.sequences.place place)) count) :
        Action Value) two) := by
  have copies := @repetition_move mirror (one.sequence place) count
  rw [← reflects.sequences place has] at copies
  change world.Outcome Same
    ((liftM (Arithmetic.repetition (one.sequence place) count) >>= make : Action Value) one)
    ((liftM (Arithmetic.repetition (two.sequence (mirror.moves.sequences.place place)) count) >>= make :
      Action Value) two)
  rw [copies]
  cases found : Arithmetic.repetition (one.sequence place) count with
  | error failure => exact .error failure
  | ok items =>
      exact made items fun item member =>
        reflects.items place has item (Arithmetic.mem_repetition found item member)

theorem outcome_repeated {items : Value} (known : world.Knows items) (count : Numeric) :
    world.Outcome Same (Arithmetic.repeated items count one)
      (Arithmetic.repeated (items.move mirror.moves) count two) := by
  cases count with
  | float number => cases items <;> exact outcome_fail _
  | int number =>
      cases items with
      | text content => exact outcome_read reflects .text (fun _ => rfl) rfl
      | list place => exact outcome_copies reflects known number fun _ inside => outcome_newList reflects inside
      | tuple place => exact outcome_copies reflects known number fun _ inside => outcome_newTuple reflects inside
      | _ => exact outcome_fail _

theorem outcome_multiply {left right : Value} (knownLeft : world.Knows left)
    (knownRight : world.Knows right) :
    world.Outcome Same (Arithmetic.multiply left right one)
      (Arithmetic.multiply (left.move mirror.moves) (right.move mirror.moves) two) := by
  have numbers : world.Outcome Same
      ((liftM (Arithmetic.binary Numeric.multiply left right) : Action Value) one)
      ((liftM (Arithmetic.binary Numeric.multiply (left.move mirror.moves) (right.move mirror.moves)) :
        Action Value) two) :=
    outcome_scalar reflects (Arithmetic.gives_binary _ _ _) (Arithmetic.binary_move ..)
  rw [Arithmetic.multiply, Arithmetic.multiply, Value.numeric?_move, Value.numeric?_move]
  cases left.numeric? with
  | none =>
      cases right.numeric? with
      | none => exact numbers
      | some count => exact outcome_repeated reflects knownLeft count
  | some count =>
      cases right.numeric? with
      | none => exact outcome_repeated reflects knownRight count
      | some other => exact numbers

theorem outcome_concat {left right : Value} (knownLeft : world.Knows left)
    (knownRight : world.Knows right) :
    world.Outcome Same (Sequence.concat left right one)
      (Sequence.concat (left.move mirror.moves) (right.move mirror.moves) two) := by
  have spelled : world.Outcome Same
      ((pure (.text (one.spelled left ++ one.spelled right)) : Action Value) one)
      ((pure (.text (two.spelled (left.move mirror.moves) ++ two.spelled (right.move mirror.moves))) :
        Action Value) two) := by
    rw [reflects.renamed.spelled knownLeft, reflects.renamed.spelled knownRight]
    exact outcome_same reflects rfl rfl
  rw [Sequence.concat, Sequence.concat, Value.sequence?_move, Value.sequence?_move]
  cases hereLeft : left.sequence? with
  | none => exact spelled
  | some one =>
      cases hereRight : right.sequence? with
      | none => exact spelled
      | some other =>
          obtain ⟨inside, same⟩ := joined reflects
            (hasSequence_of_place? knownLeft (Value.place?_of_sequence? hereLeft))
            (hasSequence_of_place? knownRight (Value.place?_of_sequence? hereRight))
          have made := outcome_newList reflects inside
          rw [← same] at made
          exact made

/-- Binding a key of a mapping that may be a value. -/
theorem outcome_bindKey {place : Nat} (map : mirror.maps place) {key value : Value}
    (knownKey : world.Knows key) (known : world.Knows value) :
    world.Outcome Same (Sequence.assign (.map place) key value one)
      (Sequence.assign (.map (mirror.moves.maps.place place)) (key.move mirror.moves)
        (value.move mirror.moves) two) := by
  rw [Sequence.assign_map, Sequence.assign_map, reflects.renamed.isKey knownKey]
  split
  · rename_i key
    exact .ok (.refl world) (reflects.bindKey map knownKey known ⟨_, key⟩) ⟨rfl, known⟩
  · exact .error _

/-- Binding an open name in a scope. -/
theorem outcome_bindName {scope : Nat} (has : world.HasScope scope) {word : Text} {value : Value}
    (free : mirror.Binds (world.veiled scope) word) (known : world.Knows value) :
    world.Outcome Same (Sequence.assign (.map scope) (.text word) value one)
      (Sequence.assign (.map (mirror.moves.maps.place scope)) (.text word) (value.move mirror.moves)
        two) := by
  rw [Sequence.assign_map, Sequence.assign_map]
  exact .ok (.refl world) (reflects.bindName has free known) ⟨rfl, known⟩

theorem outcome_replace (still : mirror.still) {place : Nat} (has : world.HasSequence place)
    (position : Int) {value : Value} (known : world.Knows value) :
    world.Outcome Same (Sequence.assign.replace value place position one)
      (Sequence.assign.replace (value.move mirror.moves) (mirror.moves.sequences.place place) position
        two) := by
  rw [Sequence.replace_apply, Sequence.replace_apply, reflects.sequences place has, List.length_map]
  cases Sequence.placeOf? (one.sequence place).length position with
  | none => exact .error _
  | some index =>
      have set : ((one.sequence place).map (·.move mirror.moves)).set index (value.move mirror.moves) =
          ((one.sequence place).set index value).map (·.move mirror.moves) := List.map_set.symm
      simp only [set]
      refine .ok (.refl world) (reflects.setSequence still has fun item member => ?_) ⟨rfl, known⟩
      rcases List.mem_or_eq_of_mem_set member with old | new
      · exact reflects.items place has item old
      · exact new ▸ known

/-- What the functions behind `=` do to any values, if nothing is moved. -/
theorem outcome_assign (still : mirror.still) {collection key value : Value}
    (knownIn : world.Knows collection) (knownKey : world.Knows key) (known : world.Knows value) :
    world.Outcome Same (Sequence.assign collection key value one)
      (Sequence.assign (collection.move mirror.moves) (key.move mirror.moves)
        (value.move mirror.moves) two) := by
  cases collection with
  | map place => exact outcome_bindKey reflects knownIn knownKey known
  | list place =>
      cases key with
      | int position => exact outcome_replace reflects still knownIn position known
      | bool truth => exact outcome_replace reflects still knownIn truth.toNat known
      | _ => exact outcome_fail _
  | _ => exact outcome_fail _

theorem gives_index {collection : Value} (known : world.Knows collection) (position : Value) :
    Gives world.Knows (Sequence.index one collection position) := by
  have item {place : Nat} (has : world.HasSequence place) (slot : Nat) :
      world.Knows ((one.sequence place)[slot]?.getD .null) := by
    cases found : (one.sequence place)[slot]? with
    | none => trivial
    | some item => exact reflects.items place has item (List.mem_of_getElem? found)
  refine .bind fun place _ => ?_
  split
  · exact .ok trivial
  · split
    · rename_i content
      refine .ok (knows_scalar ?_)
      cases content[place.toNat]? <;> rfl
    · exact .ok (item known _)
    · exact .ok (item known _)
    · rename_i entries
      dsimp only
      split
      · split
        · rename_i value found
          obtain ⟨entry, member, rfl⟩ := Heap.mem_of_lookupWith found
          exact .ok (reflects.entries entries known entry member).2
        · exact .error
      · exact .ok trivial
    · exact .error

/-- A member of a known value is known. -/
theorem Reflects.knows_member {target value : Value} (known : world.Knows target) {name : Text}
    (found : one.member target name = .value value) : world.Knows value := by
  have entry {place : Nat} (map : mirror.maps place)
      (found : Member.value ((one.lookup (.text name) (one.entries place)).getD .null) = .value value) :
      world.Knows value := by
    cases found
    rw [Heap.lookup_text]
    cases bound : named (one.entries place) name with
    | none => trivial
    | some value =>
        obtain ⟨entry, member, rfl⟩ := mem_of_named bound
        exact (reflects.entries place map entry member).2
  have boolean {isMethod : Bool} (found : Member.ofBool isMethod = .value value) : world.Knows value := by
    cases isMethod <;> cases found
    trivial
  cases target with
  | map place => exact entry known found
  | object place => exact entry known found
  | list place => exact boolean found
  | tuple place => exact boolean found
  | builtin function => cases found; trivial
  | defined place => cases found; trivial
  | host serial name => cases found; trivial
  | _ => exact knows_scalar (Heap.isScalar_member rfl found)

theorem gives_extremum (test : OrderTest) (limit : Float) {values : List Value}
    (known : ∀ value ∈ values, world.Knows value) :
    Gives world.Knows (Sequence.extremum one test limit values) := by
  rcases values with _ | ⟨first, _ | ⟨second, rest⟩⟩
  · exact .ok trivial
  · have only := known first List.mem_cons_self
    rw [Sequence.extremum]
    cases here : first.sequence? with
    | none => exact .ok only
    | some place =>
        have has := hasSequence_of_place? only (Value.place?_of_sequence? here)
        have inside := reflects.items place has
        simp only [Option.map_some, Option.getD_some]
        cases contestants : one.sequence place with
        | nil => exact .ok trivial
        | cons champion rest =>
            rw [contestants, List.forall_mem_cons] at inside
            exact Sequence.gives_best one test inside.1 inside.2
  · rw [List.forall_mem_cons] at known
    exact Sequence.gives_best one test known.1 known.2

theorem outcome_choose {condition yes no : Value} (known : world.Knows condition)
    (knownYes : world.Knows yes) (knownNo : world.Knows no) :
    world.Outcome Same ((pure (if one.truth condition then yes else no) : Action Value) one)
      ((pure (if two.truth (condition.move mirror.moves) then yes.move mirror.moves
        else no.move mirror.moves) : Action Value) two) := by
  rw [reflects.renamed.truth known]
  cases one.truth condition with
  | true => exact outcome_known reflects knownYes
  | false => exact outcome_known reflects knownNo

/-- Every built-in function that calls no other does on moved arguments what it does on the arguments. -/
theorem outcome_apply {function : Builtin} (knownFunction : world.Knows (.builtin function))
    {arguments : List Value} (known : ∀ argument ∈ arguments, world.Knows argument) :
    world.Outcome Same (function.apply arguments one)
      (function.apply (arguments.map (·.move mirror.moves)) two) := by
  have renamed := reflects.renamed
  have still (rebinds : (Value.builtin function).rebinds = true) : mirror.still :=
    knownFunction.resolve_right fun free => by rw [rebinds] at free; cases free
  have numbers := outcome_scalar reflects (Arithmetic.gives_hypotenuse arguments)
    (Arithmetic.hypotenuse_move mirror.moves arguments)
  have best (test : OrderTest) (limit : Float) :=
    outcome_moved reflects (gives_extremum reflects test limit known) (renamed.extremum test limit known)
  unfold Builtin.apply
  refine outcome_reading ?_
  -- Which arm is taken depends on the function and on how many arguments there are.
  rcases arguments with _ | ⟨x, _ | ⟨y, _ | ⟨z, _ | ⟨more, rest⟩⟩⟩⟩
  all_goals try simp only [List.mem_cons, List.not_mem_nil, or_false, forall_eq_or_imp,
    forall_eq] at known
  all_goals cases function
  all_goals first
    | exact .error _
    | exact numbers
    | exact best _ _
    | skip
  all_goals first
    | exact outcome_scalar reflects (Arithmetic.gives_unary _ _) (Arithmetic.unary_move ..)
    | exact outcome_scalar reflects (Arithmetic.gives_fixedLogarithm _ _)
        (Arithmetic.fixedLogarithm_move ..)
    | exact outcome_scalar reflects (Arithmetic.gives_logarithm _ _) (Arithmetic.logarithm_move ..)
    | exact outcome_scalar reflects (Arithmetic.gives_whole _ _) (Arithmetic.whole_move ..)
    | exact outcome_scalar reflects (Arithmetic.gives_gamma _ _) (Arithmetic.gamma_move ..)
    | exact outcome_scalar reflects (Arithmetic.gives_positive _) (Arithmetic.positive_move ..)
    | exact outcome_scalar reflects (Arithmetic.gives_sign _) (Arithmetic.sign_move ..)
    | exact outcome_scalar reflects (Arithmetic.gives_binary _ _ _) (Arithmetic.binary_move ..)
    | exact outcome_scalar reflects (Arithmetic.gives_power _ _) (Arithmetic.power_move ..)
    | exact outcome_scalar reflects (Arithmetic.gives_angle _ _) (Arithmetic.angle_move ..)
    | exact outcome_scalar reflects (Arithmetic.gives_roundTo _ _) (Arithmetic.roundTo_move ..)
    | exact outcome_scalar reflects (Arithmetic.gives_roundTo _ _) (Arithmetic.roundTo_move _ _ .null)
    | exact outcome_scalar reflects (Arithmetic.gives_sum _ _) (renamed.sum known)
    | exact outcome_read reflects _ (fun _ => rfl) (renamed.test _ known.1 known.2)
    | exact outcome_read reflects _ (fun _ => rfl) (renamed.contains known.1 known.2)
    | exact outcome_read reflects _ (fun _ => rfl) (renamed.indexOf known.1 known.2)
    | exact outcome_read reflects _ (fun _ => rfl) (renamed.join known.1 known.2)
    | exact outcome_moved reflects (gives_index reflects known.1 _)
        (renamed.index known.1 _ fun _ => trivial)
    | exact outcome_add reflects known.1 known.2
    | exact outcome_multiply reflects known.1 known.2
    | exact outcome_concat reflects known.1 known.2
    | skip
  · exact outcome_same reflects rfl (by rw [renamed.truth known])
  · exact outcome_same reflects rfl (by rw [renamed.length known])
  · exact outcome_same reflects rfl (by rw [renamed.spelled known])
  · exact outcome_same reflects rfl (by rw [renamed.same known.1 known.2])
  · exact outcome_same reflects rfl (by rw [renamed.same known.1 known.2])
  · exact outcome_same reflects rfl (by rw [renamed.truth known.1, renamed.truth known.2])
  · exact outcome_same reflects rfl (by rw [renamed.truth known.1, renamed.truth known.2])
  · exact outcome_known reflects known.2
  · have assigned := outcome_assign reflects (still rfl) known.2.2 known.1 known.2.1
    cases z with
    | null => exact outcome_known reflects known.2.1
    | _ => exact assigned
  · exact outcome_choose reflects known.1 known.2.1 known.2.2
  · exact outcome_assign reflects (still rfl) known.1 known.2.1 known.2.2
  · cases z <;> exact .error _

end

end Mirror.World

end Formula
