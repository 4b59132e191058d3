import Formula.Operation.Apply

/-!
Failures that name no value. No operation on values fails with another one, so where two heaps hold the
same in different places their operations fail in the same words.
-/

namespace Formula

/-- Whether a failure names no value. -/
def Failure.isBare : Failure → Bool
  | .evaluation (.notFunction _) | .evaluation (.memberOf _ _) | .unsupported (.literal _) | .parse _ => false
  | _ => true

/-- A computation that fails with bare failures only. -/
def Bare {α : Type} (result : Except Failure α) : Prop :=
  ∀ failure, result = .error failure → failure.isBare = true

section

variable {α β : Type}

@[simp] theorem bare_ok (value : α) : Bare (.ok value : Except Failure α) :=
  fun _ same => by cases same

@[simp] theorem bare_pure (value : α) : Bare (pure value : Except Failure α) :=
  bare_ok value

@[simp] theorem bare_refuse (fault : OperandFault) : Bare (refuse fault : Except Failure α) := by
  rintro failure ⟨⟩
  rfl

@[simp] theorem bare_bind {first : Except Failure α} {next : α → Except Failure β} :
    Bare (first >>= next) ↔ Bare first ∧ ∀ value, first = .ok value → Bare (next value) := by
  cases first with
  | ok value =>
      refine ⟨fun bare => ⟨bare_ok value, fun other same => ?_⟩, fun bare => bare.2 value rfl⟩
      cases same
      exact bare
  | error failure =>
      refine ⟨fun bare => ⟨fun other same => ?_, nofun⟩, fun bare other same => ?_⟩
      · cases same
        exact bare failure rfl
      · cases same
        exact bare.1 failure rfl

@[simp] theorem bare_map {first : Except Failure α} {change : α → β} :
    Bare (first.map change) ↔ Bare first := by
  cases first with
  | ok value => simp [Except.map]
  | error failure => simp [Except.map, Bare]

@[simp] theorem bare_change {first : Except Failure α} {change : α → β} :
    Bare (change <$> first) ↔ Bare first := bare_map

theorem bare_ite {condition : Prop} [Decidable condition] {yes no : Except Failure α}
    (bareYes : Bare yes) (bareNo : Bare no) : Bare (if condition then yes else no) := by
  split <;> assumption

end

namespace Numeric

variable (left right number : Numeric)

@[simp] theorem bare_toDouble : Bare number.toDouble := by
  cases number with
  | float value => exact bare_ok value
  | int value => exact bare_ite (bare_ok _) (bare_refuse _)

@[simp] theorem bare_combine (onInts : Int → Int → Int) (onDoubles : Float → Float → Float) :
    Bare (combine onInts onDoubles left right) := by
  unfold combine
  split <;> simp

@[simp] theorem bare_divide : Bare (left.divide right) := by
  unfold divide
  split
  · exact bare_ite (bare_refuse _) (bare_ite (bare_ok _) (bare_refuse _))
  · simp [bare_ite]

@[simp] theorem bare_remainder : Bare (left.remainder right) := by
  unfold remainder
  split
  · exact bare_ite (bare_refuse _) (bare_ok _)
  · simp [bare_ite]

@[simp] theorem bare_isFinite : Bare number.isFinite := by
  simp [isFinite]

@[simp] theorem bare_isWhole : Bare number.isWhole := by
  unfold isWhole
  refine bare_bind.mpr ⟨bare_isFinite number, fun finite _ => ?_⟩
  split
  · exact bare_ok true
  · split <;> simp

@[simp] theorem bare_toInteger (round : Dyadic → Int) : Bare (number.toInteger round) := by
  cases number with
  | int value => exact bare_ok value
  | float value =>
      unfold toInteger
      split
      · exact bare_ok _
      · split <;> simp

end Numeric

@[simp] theorem Value.bare_numeric (value : Value) : Bare value.numeric := by
  unfold numeric
  split <;> simp

namespace Mathematics

variable (argument : Numeric)

@[simp] theorem bare_checked (fault : OperandFault) (function : Float → Float) (number : Float) :
    Bare (checked fault function number) :=
  bare_ite (bare_refuse _) (bare_ite (bare_refuse _) (bare_ok _))

@[simp] theorem bare_growing (function : Float → Float) : Bare (growing function argument) := by
  simp [growing]

@[simp] theorem bare_bounded (function : Float → Float) : Bare (bounded function argument) := by
  simp [bounded]

@[simp] theorem bare_logarithm (log : Float → Float) : Bare (logarithm log argument) := by
  cases argument with
  | float value => exact bare_ite (bare_ok _) (bare_ite (bare_ok _) (bare_refuse _))
  | int value => exact bare_ite (bare_refuse _) (bare_ite (bare_ok _) (bare_ok _))

@[simp] theorem bare_power (base exponent : Float) : Bare (power base exponent) := by
  unfold power
  refine bare_ite (bare_ite (bare_refuse _) (bare_ite (bare_refuse _) ?_)) ?_
  · exact bare_ite (bare_refuse _) (bare_ok _)
  · refine bare_ite (bare_ok _) (bare_ite (bare_ok _) (bare_ite ?_ ?_))
    · exact bare_ite (bare_ok _) (bare_ite (bare_ok _) (bare_ok _))
    · exact bare_ite (bare_ok _) (bare_ite (bare_ok _) (bare_ok _))

@[simp] theorem bare_exactPower (base exponent : Numeric) : Bare (exactPower base exponent) := by
  have onDoubles (base exponent : Float) : Bare (
      if base == 0.0 && exponent < 0.0 && Double.isFinite exponent then refuse .divisionByZero
      else do
        let result ← power base exponent
        .ok (Numeric.float result)) := bare_ite (bare_refuse _) (by simp)
  unfold exactPower
  split
  · exact bare_ite (bare_ok _) (by simpa using fun _ _ _ _ => onDoubles _ _)
  · simpa using fun _ _ _ _ => onDoubles _ _

@[simp] theorem bare_cubeRoot : Bare (cubeRoot argument) := by
  unfold cubeRoot
  exact bare_ite (by simp) (by simp)

@[simp] theorem bare_roundHalfUp : Bare (roundHalfUp argument) := by
  refine bare_bind.mpr ⟨Numeric.bare_isFinite argument, fun finite _ => bare_ite ?_ (bare_ok _)⟩
  simp [Numeric.add]

@[simp] theorem bare_truncate : Bare (truncate argument) := by
  refine bare_bind.mpr ⟨Numeric.bare_isFinite argument, fun finite _ => bare_ite ?_ (bare_ok _)⟩
  simp

@[simp] theorem bare_gammaAbove (number : Float) : Bare (gammaAbove number) := by
  refine bare_ite (bare_ok _) (bare_ite ?_ ?_)
  · simp [stirling]
  · simp [lanczosGamma]

@[simp] theorem bare_gamma : Bare (gamma argument) := by
  refine bare_bind.mpr ⟨Numeric.bare_isWhole argument, fun whole _ => bare_ite (by simp) ?_⟩
  refine bare_bind.mpr ⟨Numeric.bare_toDouble argument, fun number _ => ?_⟩
  refine bare_ite (bare_ok _) (bare_ite (bare_ok _) (bare_ite ?_ (by simp)))
  have last (reflected : Float) : Bare (
      if (pi * number).sin * reflected == 0.0 then refuse .divisionByZero
      else .ok (Numeric.float (pi / ((pi * number).sin * reflected)))) :=
    bare_ite (bare_refuse _) (bare_ok _)
  exact bare_ite (by simp [last]) (by simp [last])

end Mathematics

namespace Arithmetic

variable (operand : Value)

theorem bare_unary {function : Numeric → Except Failure Numeric} (bare : ∀ number, Bare (function number)) :
    Bare (unary function operand) := by
  simp [unary, bare]

theorem bare_whole {function : Numeric → Except Failure Numeric} (bare : ∀ number, Bare (function number)) :
    Bare (whole function operand) :=
  bare_ite (bare_ok _) (bare_unary operand bare)

theorem bare_gamma {function : Numeric → Except Failure Numeric} (bare : ∀ number, Bare (function number)) :
    Bare (gamma function operand) := by
  simp [gamma, bare_unary operand bare]

theorem bare_binary {function : Numeric → Numeric → Except Failure Numeric}
    (bare : ∀ one two, Bare (function one two)) (left right : Value) :
    Bare (binary function left right) := by
  simp [binary, bare]

@[simp] theorem bare_double : Bare (double operand) := by
  have same : double operand = operand.numeric >>= Numeric.toDouble := rfl
  simp [same]

@[simp] theorem bare_sum (heap : Heap) : Bare (sum heap operand) := by
  have from_ (items : List Value) (total : Numeric) : Bare (sumFrom total items) := by
    induction items generalizing total with
    | nil => exact bare_ok total
    | cons item rest ih => simp [sumFrom, Numeric.add, ih]
  unfold sum
  split
  · rintro failure ⟨⟩
    rfl
  · exact bare_map.mpr (from_ _ _)

@[simp] theorem bare_positive : Bare (positive operand) := by
  unfold positive
  split
  · exact bare_ite (bare_ok _) (bare_ok _)
  · exact bare_ite (bare_ok _) (bare_unary _ bare_ok)

@[simp] theorem bare_sign : Bare (sign operand) := by
  refine bare_bind.mpr ⟨operand.bare_numeric, fun number _ => ?_⟩
  split <;> exact bare_pure _

@[simp] theorem bare_fixedLogarithm (log : Float → Float) : Bare (fixedLogarithm log operand) := by
  simp [fixedLogarithm]

@[simp] theorem bare_logarithm (base : Value) : Bare (logarithm operand base) := by
  have last (above below : Float) : Bare (
      if below == 0.0 then refuse .divisionByZero else pure (Value.float (above / below))) :=
    bare_ite (bare_refuse _) (bare_pure _)
  simp [logarithm, last]

@[simp] theorem bare_power (exponent : Value) : Bare (power operand exponent) := by
  simp [power]

@[simp] theorem bare_angle (abscissa : Value) : Bare (angle operand abscissa) := by
  simp [angle]

@[simp] theorem bare_hypotenuse (operands : List Value) : Bare (hypotenuse operands) := by
  have numbers : Bare (operands.mapM double) := by
    induction operands with
    | nil => simp
    | cons operand rest ih => simp [List.mapM_cons, ih]
  simp [hypotenuse, numbers]

@[simp] theorem bare_roundTo (places : Value) : Bare (roundTo operand places) := by
  have shift (number : Float) (places : Int) : Bare (shiftPoint number places) := by
    unfold shiftPoint
    split <;> simp
  have read (value : Value) : Bare (readDouble value) := by
    unfold readDouble
    split
    · split <;> simp
    · exact bare_double _
  have placed (places : Int) : Bare (roundPlaces operand places) := by
    simp [roundPlaces, shift, read]
  refine bare_ite (bare_whole operand Mathematics.bare_roundHalfUp) (bare_ite (bare_ok _) ?_)
  refine bare_bind.mpr ⟨places.bare_numeric, fun count _ => bare_bind.mpr ⟨count.bare_isWhole, ?_⟩⟩
  exact fun whole _ => bare_ite (by simp [placed]) (bare_pure _)

end Arithmetic

namespace Sequence

variable (heap : Heap)

@[simp] theorem bare_test (test : OrderTest) (left right : Value) : Bare (heap.test test left right) := by
  have within (depth : Nat) (left right : Value) : Bare (heap.testWithin test depth left right) := by
    induction depth generalizing left right with
    | zero => exact bare_refuse _
    | succ depth ih =>
        unfold Heap.testWithin
        split
        · exact bare_ok _
        · split
          · exact bare_ok _
          · dsimp only
            split <;> simp [ih]
          · dsimp only
            split <;> simp [ih]
          · exact bare_refuse _
  exact within _ _ _

theorem bare_best (test : OrderTest) (champion : Value) (rest : List Value) :
    Bare (best heap test champion rest) := by
  induction rest generalizing champion with
  | nil => exact bare_ok champion
  | cons next rest ih => simp [best, ih]

@[simp] theorem bare_extremum (test : OrderTest) (limit : Float) (values : List Value) :
    Bare (extremum heap test limit values) := by
  unfold extremum
  dsimp only
  split
  · exact bare_ok _
  · exact bare_best heap test _ _

@[simp] theorem bare_index (collection position : Value) : Bare (index heap collection position) := by
  have placed (value : Value) : Bare (Sequence.position value) := by
    unfold Sequence.position
    split
    · split <;> simp
    · simp
  refine bare_bind.mpr ⟨placed position, fun place _ => bare_ite (bare_pure _) ?_⟩
  dsimp only
  split
  · exact bare_pure _
  · exact bare_pure _
  · exact bare_pure _
  · refine bare_ite ?_ (bare_pure _)
    split <;> simp
  · exact bare_refuse _

@[simp] theorem bare_contains (value collection : Value) : Bare (contains heap value collection) := by
  cases collection <;> simp [contains]

@[simp] theorem bare_indexOf (value collection : Value) : Bare (indexOf heap value collection) := by
  cases collection <;> first | exact bare_ok _ | (rintro failure ⟨⟩; rfl)

@[simp] theorem bare_join (separator collection : Value) : Bare (join heap separator collection) := by
  unfold join
  split
  · exact bare_ok _
  · rintro failure ⟨⟩
    rfl

end Sequence

namespace Action

variable {α β : Type}

/-- An action that fails with bare failures only. -/
def Bare (action : Action α) : Prop := ∀ heap, Formula.Bare (action heap)

theorem bare_pure (value : α) : Bare (pure value) := fun _ => bare_ok _

theorem bare_fail (fault : OperandFault) : Bare (fail fault : Action α) := fun _ => bare_refuse fault

theorem bare_lift {result : Except Failure α} (bare : Formula.Bare result) : Bare (liftM result) := by
  intro heap
  cases result with
  | ok value => exact bare_ok _
  | error failure => exact fun _ same => by cases same; exact bare failure rfl

theorem bare_bind {first : Action α} {next : α → Action β} (bare : Bare first)
    (rest : ∀ value, Bare (next value)) : Bare (first >>= next) :=
  fun heap => Formula.bare_bind.mpr ⟨bare heap, fun found _ => rest found.1 found.2⟩

theorem bare_read {result : Except Failure α} (make : α → Value) (bare : Formula.Bare result) :
    Bare (do return make (← result)) :=
  bare_bind (bare_lift bare) fun _ => bare_pure _

theorem bare_get : Bare (get : Action Heap) := fun _ => bare_ok _

/-- An action that looks at the heap first. -/
theorem bare_reading {next : Heap → Action α} (each : ∀ heap, Bare (next heap)) :
    Bare (do let heap ← get; next heap) :=
  bare_bind bare_get each

theorem bare_set (heap : Heap) : Bare (set heap : Action PUnit) := fun _ => bare_ok _

theorem bare_newList (items : List Value) : Bare (newList items) := fun _ => bare_ok _

theorem bare_newTuple (items : List Value) : Bare (newTuple items) := fun _ => bare_ok _

theorem bare_items (place : Nat) : Bare (items place) := fun _ => bare_ok _

end Action

namespace Arithmetic

theorem bare_repetition {α : Type} (items : List α) (count : Int) : Bare (repetition items count) :=
  bare_ite (bare_refuse _) (bare_ok _)

theorem bare_add (left right : Value) : Action.Bare (add left right) := by
  unfold add
  split
  · exact Action.bare_pure _
  · exact Action.bare_bind (Action.bare_items _) fun _ => Action.bare_bind (Action.bare_items _) fun _ =>
      Action.bare_newList _
  · exact Action.bare_bind (Action.bare_items _) fun _ => Action.bare_bind (Action.bare_items _) fun _ =>
      Action.bare_newTuple _
  · exact Action.bare_lift (bare_binary (Numeric.bare_combine · · _ _) _ _)

theorem bare_multiply (left right : Value) : Action.Bare (multiply left right) := by
  have repeated (items : Value) (count : Numeric) : Action.Bare (repeated items count) := by
    unfold Arithmetic.repeated
    split
    · exact Action.bare_read _ (bare_repetition _ _)
    · exact Action.bare_bind (Action.bare_items _) fun _ =>
        Action.bare_bind (Action.bare_lift (bare_repetition _ _)) fun _ => Action.bare_newList _
    · exact Action.bare_bind (Action.bare_items _) fun _ =>
        Action.bare_bind (Action.bare_lift (bare_repetition _ _)) fun _ => Action.bare_newTuple _
    · exact Action.bare_fail _
  unfold multiply
  split
  · exact repeated _ _
  · exact repeated _ _
  · exact Action.bare_lift (bare_binary (Numeric.bare_combine · · _ _) _ _)

end Arithmetic

namespace Sequence

theorem bare_concat (left right : Value) : Action.Bare (concat left right) := by
  unfold concat
  split
  · exact Action.bare_bind (Action.bare_items _) fun _ => Action.bare_bind (Action.bare_items _) fun _ =>
      Action.bare_newList _
  · exact Action.bare_bind Action.bare_get fun _ => Action.bare_pure _

theorem bare_assign (collection key value : Value) : Action.Bare (assign collection key value) := by
  have replaced (place : Nat) (position : Int) : Action.Bare (assign.replace value place position) := by
    refine Action.bare_bind Action.bare_get fun heap => ?_
    dsimp only
    split
    · exact Action.bare_bind (Action.bare_set _) fun _ => Action.bare_pure _
    · exact Action.bare_fail _
  unfold assign
  split
  · refine Action.bare_bind Action.bare_get fun heap => ?_
    split
    · exact Action.bare_bind (Action.bare_set _) fun _ => Action.bare_pure _
    · exact Action.bare_fail _
  · exact replaced _ _
  · exact replaced _ _
  · exact Action.bare_fail _

end Sequence

/-- No built-in function names a value when it fails. -/
theorem Builtin.bare_apply (function : Builtin) (arguments : List Value) :
    Action.Bare (function.apply arguments) := by
  unfold apply
  refine Action.bare_reading fun heap => ?_
  split
  all_goals first
    | with_reducible exact Action.bare_fail _
    | with_reducible exact Action.bare_pure _
    | with_reducible exact Action.bare_lift (by simp)
    | with_reducible exact Action.bare_read _ (by simp)
    | with_reducible exact Action.bare_lift (Arithmetic.bare_unary _ (by simp))
    | with_reducible exact Action.bare_lift (Arithmetic.bare_binary (by simp) _ _)
    | with_reducible exact Action.bare_lift (Arithmetic.bare_whole _ (by simp))
    | with_reducible exact Arithmetic.bare_add _ _
    | with_reducible exact Arithmetic.bare_multiply _ _
    | with_reducible exact Sequence.bare_concat _ _
    | with_reducible exact Sequence.bare_assign _ _ _
    | skip
  · exact Action.bare_lift (Arithmetic.bare_gamma _ fun number => bare_bind.mpr
      ⟨Numeric.bare_combine _ _ _ _, fun above _ => Mathematics.bare_gamma above⟩)
  · exact Action.bare_lift (Arithmetic.bare_gamma _ Mathematics.bare_gamma)
  · exact Action.bare_lift (Arithmetic.bare_binary (Numeric.bare_combine · · _ _) _ _)

end Formula
