import Formula.Proofs.Operation

/-!
Operations on scalars: what they give is a scalar, and the heap has no part in it.
-/

namespace Formula

namespace Heap

variable (heap other : Heap) {left right value : Value}

theorem truth_scalar (scalar : value.isScalar = true) : heap.truth value = other.truth value := by
  cases value <;> first | rfl | cases scalar

theorem equal_scalar (scalar : left.isScalar = true) :
    heap.equal left right = other.equal left right := by
  cases left <;> first | (cases right <;> rfl) | cases scalar

theorem same_scalar (scalar : left.isScalar = true) :
    heap.same left right = other.same left right := by
  unfold same
  split
  · rfl
  · rfl
  · rfl
  · exact equal_scalar heap other scalar

theorem test_scalar (test : OrderTest) (scalar : left.isScalar = true) :
    heap.test test left right = other.test test left right := by
  cases left <;> first | (cases right <;> rfl) | cases scalar

theorem spelled_scalar (scalar : value.isScalar = true) :
    heap.spelled value = other.spelled value := by
  cases value <;> first | rfl | cases scalar

theorem member_scalar (scalar : value.isScalar = true) (name : Text) :
    heap.member value name = other.member value name := by
  cases value <;> first | rfl | cases scalar

end Heap

theorem Value.sequence?_scalar {value : Value} (scalar : value.isScalar = true) :
    value.sequence? = none := by
  cases value <;> first | rfl | cases scalar

theorem Value.isCallable_scalar {value : Value} (scalar : value.isScalar = true) :
    value.isCallable = false := by
  cases value <;> first | rfl | cases scalar

/-- A member of a scalar is a scalar. -/
theorem Heap.isScalar_member {heap : Heap} {object value : Value} {name : Text}
    (scalar : object.isScalar = true) (found : heap.member object name = .value value) :
    value.isScalar = true := by
  have boolean (isMethod : Bool) (found : Member.ofBool isMethod = .value value) :
      value.isScalar = true := by
    cases isMethod with
    | false =>
        cases found
        rfl
    | true => cases found
  have integer (number : Int) (found : Member.ofInteger number name = .value value) :
      value.isScalar = true := by
    unfold Member.ofInteger at found
    split at found
    · cases found
      rfl
    · split at found
      · cases found
        rfl
      · split at found
        · cases found
          rfl
        · exact boolean _ found
  have double (found : Member.ofFloat object name = .value value) : value.isScalar = true := by
    unfold Member.ofFloat at found
    split at found
    · cases found
      exact scalar
    · split at found
      · cases found
        rfl
      · exact boolean _ found
  cases object with
  | null =>
      cases found
      rfl
  | int number => exact integer number found
  | bool truth => exact integer truth.toInt found
  | float number => exact double found
  | notANumber serial => exact double found
  | text content => exact boolean _ found
  | _ => cases scalar

namespace Sequence

variable (heap other : Heap) {value collection : Value}

theorem length_scalar (scalar : value.isScalar = true) : length heap value = length other value := by
  rw [length, length, Value.sequence?_scalar scalar]
  exact congrArg List.length (heap.spelled_scalar other scalar)

theorem contains_scalar (scalar : value.isScalar = true) (scalarIn : collection.isScalar = true) :
    contains heap value collection = contains other value collection := by
  cases collection with
  | text content => rw [contains, contains, heap.spelled_scalar other scalar]
  | _ => first | rfl | cases scalarIn

theorem indexOf_scalar (scalar : value.isScalar = true) (scalarIn : collection.isScalar = true) :
    indexOf heap value collection = indexOf other value collection := by
  cases collection with
  | text content =>
      simp only [indexOf]
      rw [heap.spelled_scalar other scalar]
  | _ => first | rfl | cases scalarIn

theorem join_scalar (separator : Value) (scalar : collection.isScalar = true) :
    join heap separator collection = join other separator collection := by
  rw [join, join, Value.sequence?_scalar scalar]

theorem index_scalar (position : Value) (scalar : collection.isScalar = true) :
    index heap collection position = index other collection position := by
  cases collection <;> first | rfl | cases scalar

theorem best_scalar (test : OrderTest) {champion : Value} (first : champion.isScalar = true)
    {rest : List Value} (others : ∀ value ∈ rest, value.isScalar = true) :
    best heap test champion rest = best other test champion rest := by
  induction rest generalizing champion with
  | nil => rfl
  | cons next rest ih =>
      have scalar := others next List.mem_cons_self
      rw [best, best, heap.test_scalar other test scalar]
      cases other.test test next champion with
      | error failure => rfl
      | ok beaten =>
          refine ih ?_ fun value member => others value (List.mem_cons_of_mem next member)
          split
          · exact scalar
          · exact first

theorem extremum_scalar (test : OrderTest) (limit : Float) {values : List Value}
    (scalars : ∀ value ∈ values, value.isScalar = true) :
    extremum heap test limit values = extremum other test limit values := by
  cases values with
  | nil => rfl
  | cons first rest =>
      have scalar := scalars first List.mem_cons_self
      cases rest with
      | nil => simp [extremum, Value.sequence?_scalar scalar, best]
      | cons second rest =>
          exact best_scalar heap other test scalar
            fun value member => scalars value (List.mem_cons_of_mem first member)

end Sequence

theorem Arithmetic.sum_scalar (heap other : Heap) {value : Value} (scalar : value.isScalar = true) :
    sum heap value = sum other value := by
  rw [sum, sum, Value.sequence?_scalar scalar]

/-- An action that gives a scalar, the same one on every heap, and leaves the heap as it is. -/
def Action.Steady (action : Action Value) : Prop :=
  ∃ outcome, GivesScalar outcome ∧ ∀ heap, action heap = outcome.map fun value => (value, heap)

namespace Action

theorem steady_lift {outcome : Except Failure Value} (gives : GivesScalar outcome) :
    Steady (liftM outcome : Action Value) := by
  refine ⟨outcome, gives, fun heap => ?_⟩
  cases outcome <;> rfl

theorem steady_pure {value : Value} (scalar : value.isScalar = true) : Steady (pure value) :=
  ⟨.ok value, .ok scalar, fun _ => rfl⟩

theorem steady_fail (fault : OperandFault) : Steady (fail fault) :=
  ⟨.error (.operand fault), .error, fun _ => rfl⟩

/-- An action that first looks at the heap, whatever it sees there. -/
theorem steady_reading {next : Heap → Action Value}
    (steady : ∀ heap, next heap = next {} ∧ Steady (next heap)) : Steady (get >>= next) := by
  obtain ⟨outcome, gives, found⟩ := (steady {}).2
  refine ⟨outcome, gives, fun heap => ?_⟩
  change next heap heap = _
  rw [(steady heap).1]
  exact found heap

theorem steady_read {α : Type} {outcome : Except Failure α} {make : α → Value}
    (scalar : ∀ result, (make result).isScalar = true) :
    Steady (do return make (← outcome)) := by
  refine ⟨outcome.map make, .map fun result _ => scalar result, fun heap => ?_⟩
  cases outcome <;> rfl

end Action

open Formula.Action

section

variable {left right : Value} (scalarLeft : left.isScalar = true) (scalarRight : right.isScalar = true)

include scalarLeft scalarRight

theorem Arithmetic.steady_add : Steady (add left right) := by
  unfold add
  split
  · exact steady_pure rfl
  · cases scalarLeft
  · cases scalarLeft
  · exact steady_lift (gives_binary _ _ _)

theorem Arithmetic.steady_multiply : Steady (multiply left right) := by
  have repeats {items : Value} (scalar : items.isScalar = true) (count : Numeric) :
      Steady (repeated items count) := by
    unfold repeated
    split
    · exact steady_read fun _ => rfl
    · cases scalar
    · cases scalar
    · exact steady_fail _
  unfold multiply
  split
  · exact repeats scalarRight _
  · exact repeats scalarLeft _
  · exact steady_lift (gives_binary _ _ _)

theorem Sequence.steady_concat : Steady (concat left right) := by
  unfold concat
  rw [Value.sequence?_scalar scalarLeft]
  refine steady_reading fun heap => ⟨?_, steady_pure rfl⟩
  rw [heap.spelled_scalar {} scalarLeft, heap.spelled_scalar {} scalarRight]

end

theorem Sequence.steady_assign {collection : Value} (scalar : collection.isScalar = true)
    (key value : Value) : Steady (assign collection key value) := by
  cases collection <;> first | exact steady_fail _ | cases scalar

theorem Sequence.scalar_index {collection : Value} (scalar : collection.isScalar = true)
    (heap : Heap) (position : Value) : GivesScalar (index heap collection position) := by
  refine .bind fun place _ => ?_
  split
  · exact .ok rfl
  · split
    · rename_i content
      refine .ok ?_
      cases content[place.toNat]? <;> rfl
    · cases scalar
    · cases scalar
    · cases scalar
    · exact .error

theorem Sequence.scalar_extremum (heap : Heap) (test : OrderTest) (limit : Float)
    {values : List Value} (scalars : ∀ value ∈ values, value.isScalar = true) :
    GivesScalar (extremum heap test limit values) := by
  cases values with
  | nil => exact .ok rfl
  | cons first rest =>
      have scalar := scalars first List.mem_cons_self
      cases rest with
      | nil =>
          simp only [extremum, Value.sequence?_scalar scalar, Option.map_none, Option.getD_none, best]
          exact .ok scalar
      | cons second rest =>
          exact gives_best heap test scalar
            fun value member => scalars value (List.mem_cons_of_mem first member)

/-- Every built-in function that calls no other takes scalars to a scalar, whatever the heap. -/
theorem Builtin.steady_apply (function : Builtin) {arguments : List Value}
    (scalars : ∀ argument ∈ arguments, argument.isScalar = true) :
    Steady (function.apply arguments) := by
  unfold apply
  refine steady_reading fun heap => ?_
  split
  all_goals refine ⟨?_, ?_⟩
  all_goals first
    | rfl
    | exact steady_lift (Arithmetic.gives_unary _ _)
    | exact steady_lift (Arithmetic.gives_fixedLogarithm _ _)
    | exact steady_lift (Arithmetic.gives_logarithm _ _)
    | exact steady_lift (Arithmetic.gives_whole _ _)
    | exact steady_lift (Arithmetic.gives_gamma _ _)
    | exact steady_lift (Arithmetic.gives_positive _)
    | exact steady_lift (Arithmetic.gives_sign _)
    | exact steady_lift (Arithmetic.gives_binary _ _ _)
    | exact steady_lift (Arithmetic.gives_power _ _)
    | exact steady_lift (Arithmetic.gives_angle _ _)
    | exact steady_lift (Arithmetic.gives_hypotenuse _)
    | exact steady_lift (Arithmetic.gives_sum _ _)
    | exact steady_lift (Arithmetic.gives_roundTo _ _)
    | exact steady_lift (Sequence.scalar_extremum _ _ _ scalars)
    | exact steady_read fun _ => rfl
    | exact steady_pure rfl
    | exact steady_pure (scalars _ (.tail _ (.head _)))
    | exact steady_fail _
    | exact congrArg _ (Sequence.extremum_scalar heap {} _ _ scalars)
    | skip
  -- What is left looks at the heap, or depends on what kind of scalar it is given.
  all_goals simp only [List.mem_cons, List.not_mem_nil, or_false, forall_eq_or_imp,
    forall_eq] at scalars
  all_goals first
    | simp only [heap.truth_scalar {}, heap.same_scalar {}, heap.test_scalar {},
        heap.spelled_scalar {}, Sequence.length_scalar heap {}, Sequence.contains_scalar heap {},
        Sequence.indexOf_scalar heap {}, Sequence.join_scalar heap {},
        Sequence.index_scalar heap {}, Arithmetic.sum_scalar heap {}, scalars]
      done
    | skip
  · exact Arithmetic.steady_add scalars.1 scalars.2
  · exact Arithmetic.steady_multiply scalars.1 scalars.2
  · exact Sequence.steady_concat scalars.1 scalars.2
  · exact steady_lift (Sequence.scalar_index scalars.1 _ _)
  · refine steady_pure ?_
    split
    · exact scalars.2.1
    · exact scalars.2.2
  · exact Sequence.steady_assign scalars.2.2 _ _
  · exact Sequence.steady_assign scalars.1 _ _

end Formula
