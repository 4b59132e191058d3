import Formula.Proofs.Halves
import Formula.Proofs.Outcome

/-!
Bringing integers to integers. Both ways of doing so look at the double nearest to the integer first, and rounding
adds one half to it, so that integers are kept as far as doubles can tell them from their neighbours.
-/

namespace Formula

open Machine Double

theorem toDouble_int {integer : Int} (small : integer.natAbs < limit) :
    (Numeric.int integer).toDouble = .ok (ofInt integer) := by
  simp [Numeric.toDouble, isFinite_ofInt, small]

theorem toDouble_overflow {integer : Int} (large : limit ≤ integer.natAbs) :
    (Numeric.int integer).toDouble = refuse .overflow := by
  simp [Numeric.toDouble, isFinite_ofInt, Nat.not_lt.mpr large]

theorem isFinite_int {integer : Int} (small : integer.natAbs < limit) :
    (Numeric.int integer).isFinite = .ok true := by
  rw [Numeric.isFinite, toDouble_int small]
  exact congrArg Except.ok ((isFinite_ofInt integer).trans (decide_eq_true small))

theorem isFinite_int_overflow {integer : Int} (large : limit ≤ integer.natAbs) :
    (Numeric.int integer).isFinite = refuse .overflow := by
  rw [Numeric.isFinite, toDouble_overflow large]
  rfl

theorem truncate_int {integer : Int} (small : integer.natAbs < limit) :
    Mathematics.truncate (.int integer) = .ok (.int integer) := by
  rw [Mathematics.truncate, isFinite_int small]
  rfl

theorem roundHalfUp_int {integer : Int} (small : integer.natAbs < limit) :
    ∃ rounded, Mathematics.roundHalfUp (.int integer) = .ok (.int rounded) ∧ Halved integer rounded := by
  obtain ⟨sum, known, halved⟩ := floor_add_half small
  refine ⟨sum.floor, ?_, halved⟩
  have added : (Numeric.int integer).add (.float 0.5) = .ok (.float (ofInt integer + 0.5)) := by
    rw [Numeric.add, Numeric.combine, toDouble_int small]
    · rfl
    · nofun
  have floor : (Numeric.float (ofInt integer + 0.5)).toInteger Dyadic.floor = .ok sum.floor := by
    rw [Numeric.toInteger, known]
  rw [Mathematics.roundHalfUp, isFinite_int small]
  change ((Numeric.int integer).add (.float 0.5) >>= fun half =>
    half.toInteger Dyadic.floor >>= fun floor => Except.ok (Numeric.int floor)) = _
  rw [added]
  exact congrArg (· >>= fun floor => Except.ok (Numeric.int floor)) floor

theorem roundHalfUp_overflow {integer : Int} (large : limit ≤ integer.natAbs) :
    Mathematics.roundHalfUp (.int integer) = refuse .overflow := by
  rw [Mathematics.roundHalfUp, isFinite_int_overflow large]
  rfl

theorem truncate_overflow {integer : Int} (large : limit ≤ integer.natAbs) :
    Mathematics.truncate (.int integer) = refuse .overflow := by
  rw [Mathematics.truncate, isFinite_int_overflow large]
  rfl

theorem whole_int {function : Numeric → Except Failure Numeric} {integer : Int} {outcome : Except Failure Int}
    (gives : function (.int integer) = outcome.map .int) :
    Arithmetic.whole function (.int integer) = outcome.map .int := by
  change (function (.int integer) >>= fun result => pure result.toValue) = _
  rw [gives]
  cases outcome <;> rfl

/-- The functions that bring a number to an integer: a call of each, and what is behind it. -/
def roundings : List (Text × Term × (Numeric → Except Failure Numeric)) :=
  let operand : Term := .name (Text.ofString "n")
  [(Text.ofString "round(n)", .unary (Text.ofString "round") operand, Mathematics.roundHalfUp),
   (Text.ofString "trunc(n)", .unary (Text.ofString "trunc") operand, Mathematics.truncate),
   (Text.ofString "roundTo(n)", .call (.name (Text.ofString "roundTo")) [operand], Mathematics.roundHalfUp)]

theorem roundings_overflow {source : Text} {term : Term} {function : Numeric → Except Failure Numeric}
    (listed : (source, term, function) ∈ roundings) {integer : Int} (large : limit ≤ integer.natAbs) :
    function (.int integer) = refuse .overflow := by
  simp only [roundings, List.mem_cons, Prod.mk.injEq, List.not_mem_nil, or_false] at listed
  rcases listed with ⟨-, -, rfl⟩ | ⟨-, -, rfl⟩ | ⟨-, -, rfl⟩
  · exact roundHalfUp_overflow large
  · exact truncate_overflow large
  · exact roundHalfUp_overflow large

/-- A text is an expression that evaluates to an outcome and changes nothing. -/
def Answers (state : State) (dialect scope : Nat) (source : Text) (outcome : Except Failure Value) : Prop :=
  ∃ term, parse (.standard {}) source = .ok term ∧ Evaluates dialect term.code scope state outcome state

theorem Answers.determined {state : State} {dialect scope : Nat} {source : Text} {one two : Except Failure Value}
    (first : Answers state dialect scope source one) (second : Answers state dialect scope source two) :
    one = two := by
  obtain ⟨term, parsed, depth, came⟩ := first
  obtain ⟨other, same, deeper, found⟩ := second
  cases parsed.symm.trans same
  exact (perform_determined found came).1

/-- A state of the standard dialect whose scope names an integer. -/
structure Provides (state : State) (dialect scope : Nat) (integer : Int) : Prop where
  standard : state.dialect dialect = .standard {}
  bound : named (state.heap.entries scope) (Text.ofString "n") = some (.int integer)

namespace Provides

variable {state : State} {dialect scope : Nat} {integer : Int}

theorem pushes (provides : Provides state dialect scope integer) :
    Pushes ⟨dialect, scope⟩ state [.name (Text.ofString "n")] [.int integer] :=
  Pushes.name (lookup_plain (by decide) (by rw [provides.standard]; rfl) (.inl (by rw [provides.standard]; rfl))
    provides.bound rfl)

theorem answers (provides : Provides state dialect scope integer) {source : Text} {term : Term}
    {function : Numeric → Except Failure Numeric} (listed : (source, term, function) ∈ roundings)
    (outcome : Except Failure Int) (gives : function (.int integer) = outcome.map .int) :
    Answers state dialect scope source (outcome.map .int) := by
  have plain : ∀ value, outcome.map Value.int = .ok value → unsigned value = value := by
    rintro value came
    cases outcome with
    | error failure => cases came
    | ok number => cases came; rfl
  have applies {builtin : Builtin}
      (defined : ∀ heap, builtin.apply [.int integer] heap =
        (Arithmetic.whole function (.int integer)).map (·, heap)) (heap : Heap) :
      builtin.apply [.int integer] heap = (outcome.map Value.int).map (·, heap) := by
    rw [defined, whole_int gives]
  have lifted (heap : Heap) : (liftM (Arithmetic.whole function (.int integer)) : Action Value) heap =
      (Arithmetic.whole function (.int integer)).map (·, heap) := by
    cases Arithmetic.whole function (.int integer) <;> rfl
  have reads := (by decide +kernel : ∀ entry ∈ roundings,
    (reading (.standard {}) entry.1).reads entry.2.1 = true) _ listed
  refine ⟨term, parse_of_reads reads, ?_⟩
  clear reads
  simp only [roundings, List.mem_cons, Prod.mk.injEq, List.not_mem_nil, or_false] at listed
  rcases listed with ⟨-, rfl, rfl⟩ | ⟨-, rfl, rfl⟩ | ⟨-, rfl, rfl⟩
  · exact evaluates_unary .round provides.pushes (by rw [provides.standard]; rfl) rfl
      (applies lifted) plain
  · exact evaluates_unary .trunc provides.pushes (by rw [provides.standard]; rfl) rfl
      (applies lifted) plain
  · exact evaluates_call .roundTo (by decide) provides.pushes (by simp [Value.isCallable])
      (by rw [provides.standard]; rfl) rfl (applies lifted) plain

end Provides

/-- Below the limit of doubles an integer truncated is itself, and rounded it is what comes of the double nearest to
it and a half; from the limit on there is neither. -/
theorem rounding_integers {state : State} {dialect scope : Nat} {integer : Int}
    (provides : Provides state dialect scope integer) :
    (integer.natAbs < limit → Answers state dialect scope (Text.ofString "trunc(n)") (.ok (.int integer)) ∧
      ∃ rounded, Halved integer rounded ∧
        ∀ source ∈ [Text.ofString "round(n)", Text.ofString "roundTo(n)"],
          Answers state dialect scope source (.ok (.int rounded))) ∧
    (limit ≤ integer.natAbs → ∀ source ∈ roundings.map (·.1),
      Answers state dialect scope source (.error (.operand .overflow))) := by
  refine ⟨fun small => ⟨?_, ?_⟩, fun large source listed => ?_⟩
  · exact provides.answers (.tail _ (.head _)) (.ok integer) (truncate_int small)
  · obtain ⟨rounded, gives, halved⟩ := roundHalfUp_int small
    refine ⟨rounded, halved, fun source listed => ?_⟩
    simp only [List.mem_cons, List.not_mem_nil, or_false] at listed
    rcases listed with rfl | rfl
    · exact provides.answers (.head _) (.ok rounded) gives
    · exact provides.answers (.tail _ (.tail _ (.head _))) (.ok rounded) gives
  · obtain ⟨⟨_, term, function⟩, entry, rfl⟩ := List.mem_map.mp listed
    exact provides.answers entry (.error (.operand .overflow)) (roundings_overflow entry large)

theorem rounding_integers_small :
    let state : State := {
      heap := { maps := #[[(.text (Text.ofString "n"), .int (-7))]] }, dialects := #[.standard {}] }
    ∀ source ∈ [Text.ofString "round(n)", Text.ofString "roundTo(n)"],
      Answers state 0 0 source (.ok (.int (-7))) := by
  intro state
  have provides : Provides state 0 0 (-7) := ⟨rfl, rfl⟩
  obtain ⟨-, rounded, halved, answers⟩ := (rounding_integers provides).1 (lt_limit (by decide))
  rwa [halved.exact (by decide)] at answers

/-- An odd integer is rounded away from itself where its half is no double, and the limit is not rounded at all. -/
theorem rounding_odd :
    let state (integer : Int) : State := {
      heap := { maps := #[[(.text (Text.ofString "n"), .int integer)]] }, dialects := #[.standard {}] }
    (∀ outcome, Answers (state 4503599627370497) 0 0 (Text.ofString "round(n)") outcome ↔
      outcome = .ok (.int 4503599627370498)) ∧
    ∀ source ∈ roundings.map (·.1), ∀ outcome, Answers (state limit) 0 0 source outcome ↔
      outcome = .error (.operand .overflow) := by
  intro state
  have provides (integer : Int) : Provides (state integer) 0 0 integer := ⟨rfl, rfl⟩
  constructor
  · obtain ⟨rounded, gives, halved⟩ := @roundHalfUp_int 4503599627370497 (lt_limit (by decide))
    have same : rounded = 4503599627370498 := halved.evened (by decide) (by decide)
    have came := (provides 4503599627370497).answers (.head _) (.ok rounded) gives
    rw [same] at came
    exact fun outcome => ⟨fun other => other.determined came, fun known => known ▸ came⟩
  · intro source listed
    obtain ⟨⟨_, term, function⟩, entry, rfl⟩ := List.mem_map.mp listed
    have came := (provides limit).answers entry (.error (.operand .overflow))
      (roundings_overflow entry (Int.natAbs_natCast limit).ge)
    exact fun outcome => ⟨fun other => other.determined came, fun known => known ▸ came⟩

end Formula
