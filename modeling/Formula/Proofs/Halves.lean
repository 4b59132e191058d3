import Formula.Proofs.Rounding

/-!
The double nearest to an integer, and the floor of its sum with one half. Up to 52 bits both are the integer; with
one bit more the sum is rounded to an even integer, and beyond that the double itself may be another integer.
-/

namespace Formula

open Float.Model (UnpackedFloat Format)
open Float.Model.UnpackedFloat (Sign)

theorem twoTo_split {first second total : Nat} (sum : first + second = total) :
    twoTo total = 2 ^ first * twoTo second := by
  rw [← sum]
  exact Nat.pow_add 2 first second

theorem twoTo_pos (exponent : Nat) : 0 < twoTo exponent := Nat.two_pow_pos exponent

theorem twoTo_le {first second : Nat} (below : first ≤ second) : twoTo first ≤ twoTo second :=
  Nat.pow_le_pow_right Nat.two_pos below

theorem log2_lt_iff {number : Nat} (some : 0 < number) (exponent : Nat) :
    number.log2 < exponent ↔ number < twoTo exponent :=
  Nat.log2_lt (Nat.ne_of_gt some)

/-- Only how much the powers of two in a quotient differ matters for the integer nearest to it. -/
theorem nearestQuotient_pow (number : Nat) {up down high low : Nat} (same : up + low = high + down) :
    nearestQuotient (number * 2 ^ up) (2 ^ down) = nearestQuotient (number * 2 ^ high) (2 ^ low) := by
  have scale (up down more : Nat) : nearestQuotient (number * 2 ^ (up + more)) (2 ^ (down + more)) =
      nearestQuotient (number * 2 ^ up) (2 ^ down) := by
    rw [Nat.pow_add, Nat.pow_add, ← Nat.mul_assoc, nearestQuotient_mul _ _ (Nat.two_pow_pos _)]
  rw [← scale up down low, ← scale high low down, same, Nat.add_comm down low]

/-- The 53 leading bits of a number, rounded to the nearest; of two nearest the even one. -/
def leading (number : Nat) : Nat := nearestQuotient (number * 2 ^ (52 - number.log2)) (2 ^ (number.log2 - 52))

theorem log2_mul_pow {number : Nat} (some : 0 < number) (shift : Nat) :
    (number * 2 ^ shift).log2 = number.log2 + shift := by
  induction shift with
  | zero => simp
  | succ shift ih =>
      have some : number * 2 ^ shift ≠ 0 := by positivity
      rw [Nat.pow_succ', Nat.mul_left_comm, Nat.log2_two_mul some, ih, Nat.add_assoc]

theorem leading_shift {number : Nat} (some : 0 < number) (shift : Nat) :
    leading (number * 2 ^ shift) = leading number := by
  rw [leading, log2_mul_pow some, Nat.mul_assoc, ← Nat.pow_add]
  exact nearestQuotient_pow number (by omega)

theorem leading_bounds {number : Nat} (some : 0 < number) : 2 ^ 52 ≤ leading number ∧ leading number ≤ 2 ^ 53 := by
  have wide : 52 ≤ (number * 2 ^ 52).log2 := by
    rw [log2_mul_pow some]
    omega
  have bounds := nearest_leading wide
  rw [← leading_shift some 52, leading]
  have none : 52 - (number * 2 ^ 52).log2 = 0 := by omega
  rwa [none, Nat.pow_zero, Nat.mul_one]

/-- Numbers that need no more than 53 bits. -/
def Exact (number : Nat) : Prop := ∃ mantissa < 2 ^ 53, ∃ exponent, number = mantissa * 2 ^ exponent

theorem exact_small {number : Nat} (small : number ≤ 2 ^ 53) : Exact number := by
  rcases Nat.lt_or_eq_of_le small with less | rfl
  · exact ⟨number, less, 0, (Nat.mul_one number).symm⟩
  · exact ⟨1, by decide, 53, by rw [Nat.one_mul]⟩

theorem Exact.even {number : Nat} (exact : Exact number) (large : 2 ^ 53 ≤ number) : number % 2 = 0 := by
  obtain ⟨mantissa, narrow, exponent, rfl⟩ := exact
  cases exponent with
  | zero => omega
  | succ exponent =>
      rw [Nat.pow_succ, ← Nat.mul_assoc]
      exact Nat.mul_mod_left _ 2

theorem leading_narrow {number : Nat} (narrow : number.log2 ≤ 52) :
    leading number = number * 2 ^ (52 - number.log2) := by
  have none : number.log2 - 52 = 0 := by omega
  rw [leading, none]
  simpa using nearestQuotient_exact (number * 2 ^ (52 - number.log2)) Nat.one_pos

theorem leading_wide {number : Nat} (wide : 52 ≤ number.log2) :
    leading number = nearestQuotient number (2 ^ (number.log2 - 52)) := by
  have none : 52 - number.log2 = 0 := by omega
  rw [leading, none, Nat.pow_zero, Nat.mul_one]

/-- Only rounding carries. -/
theorem wide_of_carried {number : Nat} (carried : leading number = 2 ^ 53) : 53 ≤ number.log2 := by
  by_contra narrow
  have fits : number.log2 ≤ 52 := by omega
  have below : number * 2 ^ (52 - number.log2) < 2 ^ (number.log2 + 1) * 2 ^ (52 - number.log2) :=
    Nat.mul_lt_mul_of_pos_right Nat.lt_log2_self (Nat.two_pow_pos _)
  have total : number.log2 + 1 + (52 - number.log2) = 53 := by omega
  rw [← leading_narrow fits, carried, ← Nat.pow_add, total] at below
  exact Nat.lt_irrefl _ below

/-- A number of no more than 53 bits loses none. -/
theorem leading_exact {number : Nat} (wide : 52 ≤ number.log2) (exact : Exact number) :
    leading number * 2 ^ (number.log2 - 52) = number := by
  obtain ⟨mantissa, narrow, exponent, rfl⟩ := exact
  have some : 0 < mantissa := by
    rcases Nat.eq_zero_or_pos mantissa with rfl | some
    · simp at wide
    · exact some
  have fits : mantissa.log2 ≤ 52 := Nat.lt_succ_iff.mp ((Nat.log2_lt (by omega)).mpr narrow)
  rw [leading_shift some, log2_mul_pow some] at *
  rw [leading_narrow fits, Nat.mul_assoc, ← Nat.pow_add]
  congr 2
  omega

/-- What an integer is rounded to by way of the double nearest to it and a half. Up to `2 ^ 52` it is itself, up to
`2 ^ 53` odd ones are moved up to the next, and beyond that it is itself exactly where a double can hold it. -/
structure Halved (integer rounded : Int) : Prop where
  exact : integer.natAbs ≤ 2 ^ 52 → rounded = integer
  evened : 2 ^ 52 < integer.natAbs → integer.natAbs ≤ 2 ^ 53 → rounded = integer + integer % 2
  large : 2 ^ 53 < integer.natAbs → (rounded = integer ↔ Exact integer.natAbs)

namespace Double

theorem binaryExponent_one {number : Nat} (some : 0 < number) : binaryExponent number 1 = number.log2 := by
  have lower := Nat.log2_self_le (Nat.ne_of_gt some)
  have guess : (number.log2 : Int) - (1 : Nat).log2 = number.log2 := Int.sub_zero _
  have zero : (-(number.log2 : Int)).toNat = 0 := by omega
  simp only [binaryExponent, guess]
  refine if_pos ?_
  rw [zero, Int.toNat_natCast, Nat.one_mul]
  exact lower.trans_eq (Nat.mul_one number).symm

/-- The pattern of the double nearest to an integer: its leading bits and their exponent. -/
theorem nearest_integer {number : Nat} (some : 0 < number) :
    format.nearest number 1 = min ((number.log2 + 1022) * 2 ^ 52 + leading number) (2047 * 2 ^ 52) := by
  have unit : max ((number.log2 : Int) - (52 : Nat)) (-1074) = (number.log2 : Int) - 52 := by omega
  have above : (-((number.log2 : Int) - 52)).toNat = 52 - number.log2 := by omega
  have below : ((number.log2 : Int) - 52).toNat = number.log2 - 52 := by omega
  have field : ((number.log2 : Int) - 52 - -1074).toNat = number.log2 + 1022 := by omega
  simp only [BinaryFormat.nearest, if_neg (Nat.ne_of_gt some), format, binaryExponent_one some, unit, above, below,
    field, Nat.one_mul]
  rfl

/-- The size from which on the double nearest to an integer is infinite. -/
def limit : Nat := twoTo 1024 - twoTo 970

theorem limit_eq : limit = (2 ^ 54 - 1) * twoTo 970 := by
  have split : twoTo 1024 = 2 ^ 54 * twoTo 970 := twoTo_split (by decide)
  rw [limit, split, Nat.sub_mul, Nat.one_mul]

theorem lt_limit {number : Nat} (narrow : number ≤ 2 ^ 53) : number < limit := by
  have below : number < 2 ^ 54 - 1 := by omega
  rw [limit_eq]
  exact below.trans_le (Nat.le_mul_of_pos_right _ (twoTo_pos 970))

/-- An integer is below the limit if its exponent is, and its bits do not carry into the next one. -/
theorem lt_limit_iff {number : Nat} (some : 0 < number) :
    number < limit ↔ number.log2 < 1023 ∨ number.log2 = 1023 ∧ leading number < 2 ^ 53 := by
  have unit := twoTo_pos 970
  have below := log2_lt_iff some 1023
  have above := log2_lt_iff some 1024
  rw [twoTo_split (by decide : 53 + 970 = 1023)] at below
  rw [twoTo_split (by decide : 54 + 970 = 1024)] at above
  have carried : number.log2 = 1023 → (leading number < 2 ^ 53 ↔ number < limit) := by
    intro last
    have cut : leading number = nearestQuotient number (twoTo (number.log2 - 52)) := leading_wide (by omega)
    rw [cut, last, nearestQuotient_lt (twoTo_pos _) (by decide), limit_eq,
      twoTo_split (by decide : 1 + 970 = 1023 - 52)]
    generalize twoTo 970 = unit
    omega
  rw [limit_eq] at *
  generalize twoTo 970 = unit at *
  omega

theorem ofInt_eq {integer : Int} (some : integer ≠ 0) :
    ofInt integer = ofMagnitude (integer < 0)
      (min ((integer.natAbs.log2 + 1022) * 2 ^ 52 + leading integer.natAbs) (2047 * 2 ^ 52)) := by
  rw [ofInt, ofQuotient, nearest_integer (Int.natAbs_pos.mpr some)]

/-- A double that is an integer of some size, with all its bits. -/
def Whole (number : Float) (negative : Bool) (size : Nat) : Prop :=
  ∃ mantissa exponent positive, number.toModel.unpack = .finite (signOf negative) mantissa exponent positive ∧
    2 ^ 52 ≤ mantissa ∧ mantissa < 2 ^ 53 ∧ -52 ≤ exponent ∧ exponent ≤ 971 ∧
    mantissa * 2 ^ exponent.toNat = size * 2 ^ (-exponent).toNat

theorem Whole.exact {number : Float} {negative : Bool} {size : Nat} (whole : Whole number negative size) :
    Exact size := by
  obtain ⟨mantissa, exponent, -, -, -, narrow, -, -, same⟩ := whole
  rcases Int.le_total 0 exponent with up | down
  · have none : (-exponent).toNat = 0 := by omega
    rw [none, Nat.pow_zero, Nat.mul_one] at same
    exact ⟨mantissa, narrow, exponent.toNat, same.symm⟩
  · have none : exponent.toNat = 0 := by omega
    rw [none, Nat.pow_zero, Nat.mul_one] at same
    have below := Nat.le_mul_of_pos_right size (Nat.two_pow_pos (-exponent).toNat)
    exact ⟨size, by omega, 0, by omega⟩

theorem Whole.pos {number : Float} {negative : Bool} {size : Nat} (whole : Whole number negative size) :
    0 < size := by
  obtain ⟨mantissa, exponent, positive, -, -, -, -, -, same⟩ := whole
  rcases Nat.eq_zero_or_pos size with rfl | some
  · have := Nat.mul_pos positive (Nat.two_pow_pos exponent.toNat)
    omega
  · exact some

/-- The double nearest to an integer below the limit is an integer: the same one, if it needs no more bits. -/
theorem whole_ofInt {integer : Int} (some : integer ≠ 0) (small : integer.natAbs < limit) : ∃ size,
    Whole (ofInt integer) (integer < 0) size ∧ (Exact integer.natAbs → size = integer.natAbs) ∧
      (2 ^ 53 ≤ integer.natAbs → 2 ^ 53 ≤ size) := by
  have positive := Int.natAbs_pos.mpr some
  have range := (lt_limit_iff positive).mp small
  obtain ⟨lower, upper⟩ := leading_bounds positive
  rw [ofInt_eq some]
  generalize integer.natAbs = number at *
  have bits : min ((number.log2 + 1022) * 2 ^ 52 + leading number) (2047 * 2 ^ 52) =
      (number.log2 + 1022) * 2 ^ 52 + leading number := by omega
  rw [bits]
  have narrow := Nat.log2_lt (n := number) (k := 53) (by omega)
  obtain ⟨size, same, exact, large⟩ : ∃ size,
      leading number * 2 ^ (number.log2 - 52) = size * 2 ^ (52 - number.log2) ∧
      (Exact number → size = number) ∧ (2 ^ 53 ≤ number → 2 ^ 53 ≤ size) := by
    rcases Nat.le_total number.log2 52 with fits | wide
    · have none : number.log2 - 52 = 0 := by omega
      refine ⟨number, ?_, fun _ => rfl, id⟩
      rw [leading_narrow fits, none, Nat.pow_zero, Nat.mul_one]
    · have none : 52 - number.log2 = 0 := by omega
      refine ⟨leading number * 2 ^ (number.log2 - 52), by rw [none, Nat.pow_zero, Nat.mul_one],
        leading_exact wide, fun large => ?_⟩
      have more : 1 ≤ number.log2 - 52 := by omega
      exact Nat.mul_le_mul lower (Nat.pow_le_pow_right Nat.two_pos more)
  refine ⟨size, ?_, exact, large⟩
  rcases Nat.lt_or_eq_of_le upper with less | carried
  · obtain ⟨nonzero, unpacked⟩ := unpack_ofMagnitude (integer < 0) (number.log2 + 1022) lower less (by omega)
    refine ⟨_, _, nonzero, unpacked, lower, less, by omega, by omega, ?_⟩
    have up : (((number.log2 + 1022 : Nat) : Int) - 1074).toNat = number.log2 - 52 := by omega
    have down : (-(((number.log2 + 1022 : Nat) : Int) - 1074)).toNat = 52 - number.log2 := by omega
    rw [up, down, same]
  · obtain ⟨nonzero, unpacked⟩ := unpack_ofMagnitude (integer < 0) (number.log2 + 1023)
      (Nat.le_refl (2 ^ 52)) (by decide) (by omega)
    have moved : (number.log2 + 1022) * 2 ^ 52 + leading number = (number.log2 + 1023) * 2 ^ 52 + 2 ^ 52 := by omega
    rw [moved]
    refine ⟨_, _, nonzero, unpacked, Nat.le_refl _, by decide, by omega, by omega, ?_⟩
    have wide := wide_of_carried carried
    have up : (((number.log2 + 1023 : Nat) : Int) - 1074).toNat = number.log2 - 52 + 1 := by omega
    have down : (-(((number.log2 + 1023 : Nat) : Int) - 1074)).toNat = 52 - number.log2 := by omega
    rw [up, down, ← same, carried, ← Nat.pow_add, ← Nat.pow_add]
    exact congrArg (2 ^ ·) (by omega)

/-- Twice the size of an integer and a half, by its sign. -/
def twice (negative : Bool) (size : Nat) : Nat := if negative then 2 * size - 1 else 2 * size + 1

/-- The size that the sum of an integer and a half is rounded to, where it is no longer exact. -/
def evened (negative : Bool) (size : Nat) : Nat := if negative then size - size % 2 else size + size % 2

theorem twice_near (negative : Bool) {size : Nat} (some : 0 < size) :
    twice negative size = 2 * size + 1 ∨ twice negative size + 1 = 2 * size := by
  unfold twice
  split <;> omega

/-- A number as large as that is even, and its own bits lead. -/
theorem leading_near {number size : Nat} (near : number = 2 * size + 1 ∨ number + 1 = 2 * size)
    (exact : Exact size) (wide : 54 ≤ number.log2) :
    leading number * 2 ^ (number.log2 - 53) = size ∧ size % 2 = 0 := by
  have some : number ≠ 0 := by
    rintro rfl
    simp at wide
  obtain ⟨mantissa, narrow, exponent, rfl⟩ := exact
  have unit := Nat.two_pow_pos exponent
  have inside : number.log2 < 54 + exponent := by
    refine (Nat.log2_lt some).mpr ?_
    have bound : (mantissa + 1) * 2 ^ exponent ≤ 2 ^ 53 * 2 ^ exponent := Nat.mul_le_mul_right _ narrow
    rw [Nat.add_mul, Nat.one_mul] at bound
    rw [Nat.pow_add]
    omega
  obtain ⟨count, cut⟩ : ∃ count, mantissa * 2 ^ exponent = 2 ^ (number.log2 - 53) * count := by
    refine ⟨mantissa * 2 ^ (exponent - (number.log2 - 53)), ?_⟩
    have total : number.log2 - 53 + (exponent - (number.log2 - 53)) = exponent := by omega
    rw [Nat.mul_left_comm, ← Nat.pow_add, total]
  have double : 2 ^ (number.log2 - 52) = 2 * 2 ^ (number.log2 - 53) := by
    rw [← Nat.pow_succ']
    exact congrArg (2 ^ ·) (by omega)
  have even : 2 ^ (number.log2 - 53) = 2 * 2 ^ (number.log2 - 54) := by
    rw [← Nat.pow_succ']
    exact congrArg (2 ^ ·) (by omega)
  have positive := Nat.two_pow_pos (number.log2 - 54)
  have nearest : leading number = count := by
    rw [leading_wide (by omega), double]
    rw [cut] at near
    exact nearestQuotient_near (by rw [Nat.mul_assoc]; omega) (by rw [Nat.mul_assoc]; omega)
  rw [nearest, cut]
  refine ⟨Nat.mul_comm _ _, ?_⟩
  rw [even, Nat.mul_assoc]
  omega

theorem leading_twice (negative : Bool) {size : Nat} (exact : Exact size) (some : 0 < size)
    (wide : 53 ≤ (twice negative size).log2) :
    leading (twice negative size) * 2 ^ ((twice negative size).log2 - 53) = evened negative size := by
  rcases Nat.lt_or_eq_of_le wide with more | last
  · obtain ⟨same, even⟩ := leading_near (twice_near negative some) exact more
    rw [same, evened]
    split <;> omega
  · have one : (twice negative size).log2 - 52 = 1 := by omega
    have none : (twice negative size).log2 - 53 = 0 := by omega
    rw [leading_wide (by omega), one, none, Nat.pow_zero, Nat.mul_one, Nat.pow_one]
    unfold twice evened
    simp only [nearestQuotient]
    cases negative with
    | false => simp only [Bool.false_eq_true, if_false]; split_ifs <;> omega
    | true => simp only [if_true]; split_ifs <;> omega

/-- An integer of a size. -/
def signed (negative : Bool) (size : Nat) : Int := if negative then -size else size

theorem normalize_signed (spec : Format) (negative : Bool) {number : Nat} (some : 0 < number) (exponent : Int)
    (sign : Sign) : UnpackedFloat.normalize spec (signed negative number) exponent sign =
      .round spec (signOf negative) number exponent := by
  cases negative with
  | false =>
      have order : compare (signed false number) 0 = .gt := Int.compare_eq_gt.mpr (Int.natCast_pos.mpr some)
      rw [UnpackedFloat.normalize, order]
      rfl
  | true =>
      have order : compare (signed true number) 0 = .lt :=
        Int.compare_eq_lt.mpr (Int.neg_neg_of_pos (Int.natCast_pos.mpr some))
      have size : (-signed true number).toNat = number := by simp [signed]
      rw [UnpackedFloat.normalize, order]
      dsimp only
      rw [size]
      rfl

/-- The exact sum of an integer and a half, which is then rounded. -/
theorem add_half (negative : Bool) {mantissa size : Nat} {exponent : Int} (positive : 0 < mantissa)
    (half : 0 < 2 ^ 52) (some : 0 < size) (least : -52 ≤ exponent)
    (same : mantissa * 2 ^ exponent.toNat = size * 2 ^ (-exponent).toNat) :
    UnpackedFloat.add .binary64 (.finite (signOf negative) mantissa exponent positive)
        (.finite .positive (2 ^ 52) (-53) half) =
      .round .binary64 (signOf negative) (twice negative size * 2 ^ 52) (-53) := by
  have smaller : min exponent (-53) = -53 := by omega
  have none : ((-53 : Int) - -53).toNat = 0 := rfl
  have shifted : mantissa <<< (exponent - -53).toNat = size * 2 ^ 53 := by
    rw [Nat.shiftLeft_eq]
    rcases Int.le_total 0 exponent with up | down
    · have total : (exponent - -53).toNat = exponent.toNat + 53 := by omega
      have zero : (-exponent).toNat = 0 := by omega
      rw [total, Nat.pow_add, ← Nat.mul_assoc, same, zero, Nat.pow_zero, Nat.mul_one]
    · have total : 53 = (-exponent).toNat + (exponent - -53).toNat := by omega
      have zero : exponent.toNat = 0 := by omega
      rw [zero, Nat.pow_zero, Nat.mul_one] at same
      rw [same, Nat.mul_assoc, ← Nat.pow_add, ← total]
  simp only [UnpackedFloat.add, UnpackedFloat.decreaseExponent, smaller, none, shifted, Nat.shiftLeft_zero]
  have sum : (signOf negative).apply ((size * 2 ^ 53 : Nat) : Int) + Sign.positive.apply ((2 ^ 52 : Nat) : Int) =
      signed negative (twice negative size * 2 ^ 52) := by
    cases negative <;>
      simp only [signOf, signed, twice, Sign.apply, Bool.false_eq_true, if_false, if_true] <;> omega
  have positive : 0 < twice negative size := by
    unfold twice
    split <;> omega
  rw [sum]
  exact normalize_signed .binary64 negative (Nat.mul_pos positive half) (-53) .positive

theorem floor_above {negative : Bool} {mantissa : Nat} {exponent : Int} (up : 0 ≤ exponent) :
    (⟨negative, mantissa, exponent⟩ : Dyadic).floor = signed negative (mantissa * 2 ^ exponent.toNat) := by
  have none : (-exponent).toNat = 0 := by omega
  rw [Dyadic.floor, Dyadic.below, none]
  exact Int.fdiv_one _

/-- The floor of half an integer. -/
theorem floor_half {negative : Bool} {mantissa number unit : Nat} {exponent : Int} (down : exponent < 0)
    (some : 0 < unit) (size : mantissa = number * unit) (below : 2 ^ (-exponent).toNat = 2 * unit) :
    (⟨negative, mantissa, exponent⟩ : Dyadic).floor = (signed negative number).fdiv 2 := by
  have none : exponent.toNat = 0 := by omega
  have whole : (⟨negative, mantissa, exponent⟩ : Dyadic).scaled = signed negative number * unit := by
    simp only [Dyadic.scaled, Dyadic.above, none, size, signed, twoTo]
    cases negative <;> simp
  have parts : ((⟨negative, mantissa, exponent⟩ : Dyadic).below : Int) = 2 * unit := by
    exact_mod_cast below
  rw [Dyadic.floor, whole, parts]
  exact Int.mul_fdiv_mul_of_pos_left _ _ (Int.natCast_pos.mpr some)

theorem fdiv_twice (negative : Bool) {size : Nat} (some : 0 < size) :
    (signed negative (twice negative size)).fdiv 2 = signed negative size := by
  rw [Int.fdiv_eq_ediv_of_nonneg _ (by decide)]
  cases negative <;> simp only [signed, twice, Bool.false_eq_true, if_false, if_true] <;> omega

theorem Whole.lt_top {number : Float} {negative : Bool} {size : Nat} (whole : Whole number negative size) :
    size < twoTo 1024 := by
  obtain ⟨mantissa, exponent, -, -, -, narrow, -, most, same⟩ := whole
  have up : exponent.toNat ≤ 971 := by omega
  rw [twoTo_split (by decide : 53 + 971 = 1024)]
  calc size ≤ size * 2 ^ (-exponent).toNat := Nat.le_mul_of_pos_right size (Nat.two_pow_pos _)
    _ = mantissa * twoTo exponent.toNat := same.symm
    _ ≤ mantissa * twoTo 971 := Nat.mul_le_mul_left _ (twoTo_le up)
    _ < 2 ^ 53 * twoTo 971 := Nat.mul_lt_mul_of_pos_right narrow (twoTo_pos 971)

/-- The exponent of the sum of a double and a half is that of a double. -/
theorem Whole.log_twice {number : Float} {negative : Bool} {size : Nat} (whole : Whole number negative size) :
    (twice negative size).log2 ≤ 1024 ∧
      (leading (twice negative size) = 2 ^ 53 → (twice negative size).log2 ≤ 1023) := by
  have bound := whole.lt_top
  have near := twice_near negative whole.pos
  have log : (twice negative size).log2 < 1025 := by
    rw [log2_lt_iff (by omega) 1025, twoTo_split (by decide : 1 + 1024 = 1025)]
    omega
  refine ⟨by omega, fun carried => ?_⟩
  by_contra large
  have same : leading (twice negative size) * twoTo ((twice negative size).log2 - 53) = size :=
    (leading_near near whole.exact (by omega)).1
  have last : (twice negative size).log2 - 53 = 971 := by omega
  rw [carried, last, ← twoTo_split (by decide : 53 + 971 = 1024)] at same
  exact absurd same (Nat.ne_of_gt bound)

/-- The sum of an integer double and a half is rounded to the leading bits of its double. -/
theorem Whole.unpack_add_half {number : Float} {negative : Bool} {size : Nat} (whole : Whole number negative size) :
    ∃ mantissa exponent positive,
      (number + 0.5).toModel.unpack = .finite (signOf negative) mantissa exponent positive ∧
      (mantissa = leading (twice negative size) ∧ exponent = (twice negative size).log2 - 53 ∨
        mantissa = 2 ^ 52 ∧ leading (twice negative size) = 2 ^ 53 ∧ exponent = (twice negative size).log2 - 52) := by
  have some := whole.pos
  obtain ⟨total, overflow⟩ := whole.log_twice
  have near := twice_near negative some
  obtain ⟨mantissa, exponent, positive, unpacked, -, -, least, -, same⟩ := whole
  have half : 0 < 2 ^ 52 := by decide
  have tall : 0 < twice negative size := by omega
  have log := log2_mul_pow tall 52
  have front := leading_shift tall 52
  have wide : 52 ≤ (twice negative size * 2 ^ 52).log2 := by omega
  obtain ⟨rounded, moved, nonzero, summed, cases⟩ := round_leading (signOf negative) (-53) wide (by omega)
  rw [← leading_wide (by omega), front, log] at cases
  have bits : (number + 0.5).toModel.unpack = UnpackedFloat.unpack .binary64 (UnpackedFloat.pack .binary64
      (UnpackedFloat.add .binary64 number.toModel.unpack (0.5 : Float).toModel.unpack)) := rfl
  refine ⟨rounded, moved, nonzero, ?_, by omega⟩
  rw [bits, unpacked, unpack_half, add_half negative positive half some least same, summed]
  exact unpack_pack _ nonzero (by omega) (by omega) (by omega) (by omega)

/-- The sum of an integer double and a half, rounded down: the integer itself, unless it has so many bits that the
sum has to be rounded before. -/
theorem Whole.kind_add_half {number : Float} {negative : Bool} {size : Nat} (whole : Whole number negative size) :
    ∃ sum, kind (number + 0.5) = .finite sum ∧
      sum.floor = signed negative (if size ≤ 2 ^ 52 then size else evened negative size) := by
  have some := whole.pos
  have near := twice_near negative some
  obtain ⟨rounded, moved, nonzero, added, cases⟩ := whole.unpack_add_half
  have sign : (signOf negative == .negative) = negative := by cases negative <;> rfl
  refine ⟨_, kind_of_unpack added, ?_⟩
  rw [sign]
  have bound := Nat.log2_lt (n := twice negative size) (k := 53) (by omega)
  rcases Nat.lt_or_ge (twice negative size).log2 53 with fits | wide
  · obtain ⟨rfl, place⟩ | ⟨-, carried, -⟩ := cases
    · have down : (-moved).toNat = 52 - (twice negative size).log2 + 1 := by omega
      rw [floor_half (by omega) (Nat.two_pow_pos _) (leading_narrow (by omega)) (by rw [down, Nat.pow_succ']),
        fdiv_twice negative some, if_pos (by omega)]
    · exact absurd (wide_of_carried carried) (by omega)
  · have evens : (if size ≤ 2 ^ 52 then size else evened negative size) = evened negative size := by
      unfold evened twice at *
      split_ifs at * <;> omega
    rw [floor_above (by omega), evens, ← leading_twice negative whole.exact some wide]
    congr 1
    obtain ⟨rfl, place⟩ | ⟨rfl, carried, place⟩ := cases
    · have up : moved.toNat = (twice negative size).log2 - 53 := by omega
      rw [up]
    · have up : moved.toNat = 1 + ((twice negative size).log2 - 53) := by omega
      rw [up, carried, ← Nat.pow_add, ← Nat.pow_add]
      exact congrArg (2 ^ ·) (by omega)

theorem isFinite_of_kind {number : Float} {value : Dyadic} (known : kind number = .finite value) :
    isFinite number = true := by
  rw [isFinite, known]

theorem isFinite_zero : isFinite (ofInt 0) = true := by decide +kernel

theorem floor_half_zero : ∃ sum, kind (ofInt 0 + 0.5) = .finite sum ∧ sum.floor = 0 :=
  ⟨⟨false, 2 ^ 52, -53⟩, by decide +kernel, by decide +kernel⟩

theorem isFinite_overflow (negative : Bool) : isFinite (ofMagnitude negative (2047 * 2 ^ 52)) = false := by
  cases negative <;> decide +kernel

/-- The double nearest to an integer is finite below the limit only. -/
theorem isFinite_ofInt (integer : Int) : isFinite (ofInt integer) = decide (integer.natAbs < limit) := by
  rcases eq_or_ne integer 0 with rfl | some
  · exact isFinite_zero.trans (decide_eq_true (lt_limit (Nat.zero_le _))).symm
  have positive := Int.natAbs_pos.mpr some
  rcases Nat.lt_or_ge integer.natAbs limit with small | large
  · obtain ⟨size, ⟨mantissa, exponent, nonzero, unpacked, -⟩, -⟩ := whole_ofInt some small
    rw [decide_eq_true small, isFinite_of_kind (kind_of_unpack unpacked)]
  · have range := mt (lt_limit_iff positive).mpr (Nat.not_lt.mpr large)
    have bounds := leading_bounds positive
    have infinite : min ((integer.natAbs.log2 + 1022) * 2 ^ 52 + leading integer.natAbs) (2047 * 2 ^ 52) =
        2047 * 2 ^ 52 := by omega
    rw [decide_eq_false (Nat.not_lt.mpr large), ofInt_eq some, infinite, isFinite_overflow]

theorem floor_add_half {integer : Int} (small : integer.natAbs < limit) :
    ∃ sum, kind (ofInt integer + 0.5) = .finite sum ∧ Halved integer sum.floor := by
  rcases eq_or_ne integer 0 with rfl | some
  · obtain ⟨sum, known, floor⟩ := floor_half_zero
    exact ⟨sum, known, ⟨fun _ => floor, fun large => by omega, fun large => by omega⟩⟩
  obtain ⟨size, whole, same, wide⟩ := whole_ofInt some small
  obtain ⟨sum, known, floor⟩ := whole.kind_add_half
  refine ⟨sum, known, ?_⟩
  have exact := whole.exact
  rw [floor]
  have sign : integer = signed (integer < 0) integer.natAbs := by
    unfold signed
    split <;> simp only [decide_eq_true_eq] at * <;> omega
  constructor
  · intro narrow
    rw [same (exact_small (by omega)), if_pos narrow, ← sign]
  · intro more most
    rw [same (exact_small most), if_neg (by omega)]
    unfold signed evened
    split <;> simp only [decide_eq_true_eq] at * <;> omega
  · intro large
    have even := exact.even (wide (by omega))
    have kept : evened (integer < 0) size = size := by
      unfold evened
      split <;> omega
    have reached := wide (by omega)
    rw [if_neg (by omega), kept]
    constructor
    · intro equal
      have : size = integer.natAbs := by
        unfold signed at equal
        split at equal <;> simp only [decide_eq_true_eq] at * <;> omega
      rwa [← this]
    · intro fits
      rw [same fits, ← sign]

end Double

end Formula
