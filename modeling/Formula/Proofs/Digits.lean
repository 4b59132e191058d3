import Formula.Proofs.Nearest

/-!
The shortest digits of a double are read back as that double. The grids of decimals are searched from the
coarsest on for a number that the double is the nearest to, and the last of them is finer than the doubles lie.
-/

namespace Formula

namespace Decimal

/-- The number that a decimal denotes. -/
def toRat (number : Decimal) : ℚ := number.digits * 10 ^ number.exponent

namespace Interval

variable {range : Interval}

/-- A number within an interval. -/
def Contains (range : Interval) (number : ℚ) : Prop :=
  let lowest : ℚ := range.lowest / range.denominator
  let highest : ℚ := range.highest / range.denominator
  if range.closed then lowest ≤ number ∧ number ≤ highest else lowest < number ∧ number < highest

theorem holds_iff (positive : 0 < range.denominator) (digits : Nat) (unit : Int) :
    range.holds digits unit = true ↔ range.Contains (digits * 10 ^ unit) := by
  have bar : (0 : ℚ) < range.denominator := by exact_mod_cast positive
  have least (bound : Nat) : bound * tenTo (-unit).toNat ≤ digits * tenTo unit.toNat * range.denominator ↔
      (bound : ℚ) / range.denominator ≤ digits * 10 ^ unit := by
    rw [← pow_div_pow 10 (by norm_num) unit, ← mul_div_assoc, div_le_div_iff₀ bar (by positivity), ← cast_tenTo,
      ← cast_tenTo]
    norm_cast
  have most (bound : Nat) : digits * tenTo unit.toNat * range.denominator ≤ bound * tenTo (-unit).toNat ↔
      digits * 10 ^ unit ≤ (bound : ℚ) / range.denominator := by
    rw [← pow_div_pow 10 (by norm_num) unit, ← mul_div_assoc, div_le_div_iff₀ (by positivity) bar, ← cast_tenTo,
      ← cast_tenTo]
    norm_cast
  simp only [holds, Contains]
  split
  · rw [Bool.and_eq_true, decide_eq_true_iff, decide_eq_true_iff, least, most]
  · rw [Bool.and_eq_true, decide_eq_true_iff, decide_eq_true_iff, ← Nat.not_le, ← Nat.not_le, least, most, not_le,
      not_le]

theorem of_not_contains (positive : 0 < range.denominator) {number : ℚ} (outside : ¬range.Contains number) :
    number * range.denominator ≤ range.lowest ∨ range.highest ≤ number * range.denominator := by
  have bar : (0 : ℚ) < range.denominator := by exact_mod_cast positive
  simp only [Contains, div_le_iff₀ bar, le_div_iff₀ bar, div_lt_iff₀ bar, lt_div_iff₀ bar] at outside
  by_contra within
  obtain ⟨above, below⟩ := not_or.mp within
  rw [not_le] at above below
  split at outside
  · exact outside ⟨above.le, below.le⟩
  · exact outside ⟨above, below⟩

/-- What a grid offers lies within the interval. -/
theorem onGrid?_contains (positive : 0 < range.denominator) {unit : Int} {found : Decimal}
    (offered : range.onGrid? unit = some found) : range.Contains found.toRat := by
  have inside {digits : Nat} (holds : range.holds digits unit = true) :
      range.Contains (Decimal.toRat ⟨digits, unit⟩) := (holds_iff positive digits unit).mp holds
  unfold onGrid? at offered
  simp only at offered
  generalize range.value * tenTo (-unit).toNat / (range.denominator * tenTo unit.toNat) = below at offered
  split at offered
  · cases offered
  · cases offered
    exact inside ‹_›
  · cases offered
    exact inside ‹_›
  · split at offered
    · cases offered
      exact inside ‹_›
    · cases offered
      exact inside ‹_›
    · cases offered
      rcases Nat.mod_two_eq_zero_or_one below with even | odd
      · rw [even]
        exact inside ‹range.holds below unit = true›
      · rw [odd]
        exact inside ‹range.holds (below + 1) unit = true›

/-- The value lies between the grid's number below it and the next one. -/
theorem floor_bounds (positive : 0 < range.denominator) (unit : Int) :
    let below := range.value * tenTo (-unit).toNat / (range.denominator * tenTo unit.toNat)
    (below : ℚ) * (10 ^ unit * range.denominator) ≤ range.value ∧
      range.value < (below + 1) * ((10 : ℚ) ^ unit * range.denominator) := by
  intro below
  have bar : 0 < range.denominator * tenTo unit.toNat := Nat.mul_pos positive (Nat.pow_pos (by decide))
  have down : (0 : ℚ) < 10 ^ (-unit).toNat := by positivity
  have least : below * (range.denominator * tenTo unit.toNat) ≤ range.value * tenTo (-unit).toNat :=
    Nat.div_mul_le_self _ _
  have most : range.value * tenTo (-unit).toNat < (below + 1) * (range.denominator * tenTo unit.toNat) := by
    rw [mul_comm (below + 1)]
    exact Nat.lt_mul_div_succ _ bar
  have least : (below : ℚ) * (range.denominator * 10 ^ unit.toNat) ≤ range.value * 10 ^ (-unit).toNat := by
    rw [← cast_tenTo, ← cast_tenTo]
    exact_mod_cast least
  have most : (range.value : ℚ) * 10 ^ (-unit).toNat < (below + 1) * (range.denominator * 10 ^ unit.toNat) := by
    rw [← cast_tenTo, ← cast_tenTo]
    exact_mod_cast most
  rw [← pow_div_pow 10 (by norm_num) unit, div_mul_eq_mul_div, mul_comm (_ ^ unit.toNat), ← mul_div_assoc,
    ← mul_div_assoc]
  exact ⟨(div_le_iff₀ down).mpr least, (lt_div_iff₀ down).mpr most⟩

/-- A grid finer than the interval is wide offers something. -/
theorem onGrid?_isSome (positive : 0 < range.denominator) {unit : Int}
    (lower : range.lowest < range.value) (upper : range.value < range.highest)
    (fine : (10 : ℚ) ^ unit * range.denominator < range.highest - range.lowest) :
    (range.onGrid? unit).isSome = true := by
  have bar : (0 : ℚ) < range.denominator := by exact_mod_cast positive
  have step : (0 : ℚ) < 10 ^ unit := by positivity
  have lower : (range.lowest : ℚ) < range.value := by exact_mod_cast lower
  have upper : (range.value : ℚ) < range.highest := by exact_mod_cast upper
  obtain ⟨least, most⟩ := floor_bounds positive unit
  generalize place : range.value * tenTo (-unit).toNat / (range.denominator * tenTo unit.toNat) = below at least most
  have outside : ¬(range.holds below unit = false ∧ range.holds (below + 1) unit = false) := by
    rintro ⟨first, second⟩
    rw [← Bool.not_eq_true, holds_iff positive] at first second
    push_cast at second
    have low : (below : ℚ) * 10 ^ unit * range.denominator ≤ range.lowest :=
      (of_not_contains positive first).resolve_right fun above => by linarith
    have high : range.highest ≤ ((below : ℚ) + 1) * 10 ^ unit * range.denominator :=
      (of_not_contains positive second).resolve_left fun below => by linarith
    linarith
  unfold onGrid?
  simp only [place]
  split
  · exact absurd ⟨‹_›, ‹_›⟩ outside
  · rfl
  · rfl
  · split <;> rfl

end Interval

theorem Interval.search_contains {range : Interval} (positive : 0 < range.denominator)
    (lower : range.lowest < range.value) (upper : range.value < range.highest) (tries : Nat) (unit : Int)
    (fine : (10 : ℚ) ^ (unit - tries) * range.denominator < range.highest - range.lowest) :
    range.Contains (range.search unit (tries + 1)).toRat := by
  induction tries generalizing unit with
  | zero =>
      have fine : (10 : ℚ) ^ unit * range.denominator < range.highest - range.lowest := by simpa using fine
      obtain ⟨found, offered⟩ := Option.isSome_iff_exists.mp (onGrid?_isSome positive lower upper fine)
      rw [search, offered]
      exact onGrid?_contains positive offered
  | succ tries ih =>
      rw [search]
      cases offered : range.onGrid? unit with
      | some found => exact onGrid?_contains positive offered
      | none =>
          refine ih (unit - 1) ?_
          rwa [show unit - 1 - (tries : Int) = unit - (tries + 1 : Nat) by push_cast; omega]

theorem trimmed_toRat (digits : Nat) (exponent : Int) :
    (trimmed digits exponent).toRat = (⟨digits, exponent⟩ : Decimal).toRat := by
  fun_induction trimmed digits exponent with
  | case1 digits exponent rest ih =>
      obtain ⟨-, last⟩ := rest
      obtain ⟨tens, rfl⟩ := Nat.dvd_of_mod_eq_zero last
      rw [ih, Nat.mul_div_cancel_left _ (by decide)]
      simp only [toRat]
      rw [zpow_add_one₀ (by norm_num)]
      push_cast
      ring
  | case2 => rfl

/-- The estimate of a decimal exponent from a binary one is never more than one too large. -/
theorem guess_le {exponent : Int} (least : -1100 ≤ exponent) (most : exponent ≤ 1100) :
    (10 : ℚ) ^ ((exponent * 30103).fdiv 100000 - 1) ≤ 2 ^ exponent := by
  have checked : ∀ place : Fin 2201, 
      let exponent := (place : Int) - 1100
      let guess := (exponent * 30103).fdiv 100000 - 1
      10 ^ guess.toNat * 2 ^ (-exponent).toNat ≤ 2 ^ exponent.toNat * 10 ^ (-guess).toNat := by
    decide +kernel
  have here := checked ⟨(exponent + 1100).toNat, by omega⟩
  have same : (((exponent + 1100).toNat : Nat) : Int) - 1100 = exponent := by omega
  simp only [same] at here
  rw [← pow_div_pow 10 (by norm_num), ← pow_div_pow 2 two_ne_zero, div_le_div_iff₀ (by positivity) (by positivity)]
  exact_mod_cast here

/-- The decimal exponent of a quotient is not too large. -/
theorem decimalExponent_le {numerator denominator : Nat} (some : 0 < numerator) (positive : 0 < denominator)
    (least : -1100 ≤ binaryExponent numerator denominator) (most : binaryExponent numerator denominator ≤ 1100) :
    (10 : ℚ) ^ decimalExponent numerator denominator ≤ numerator / denominator := by
  have bar : (0 : ℚ) < denominator := by exact_mod_cast positive
  have reached {exponent : Int} (passes : atLeastPower numerator denominator exponent = true) :
      (10 : ℚ) ^ exponent ≤ numerator / denominator := by
    rw [← pow_div_pow 10 (by norm_num) exponent, div_le_div_iff₀ (by positivity) bar, ← cast_tenTo, ← cast_tenTo]
    rw [atLeastPower, decide_eq_true_iff, mul_comm denominator] at passes
    exact_mod_cast passes
  simp only [decimalExponent]
  split_ifs with above here
  · exact reached above
  · exact reached here
  · exact (guess_le least most).trans (binaryExponent_spec some positive).1

open Double (Proper Around downward downward_bounds)

variable {mantissa : Nat} {exponent : Int} {negative : Bool}

theorem lowest_eq : (interval ⟨negative, mantissa, exponent⟩).lowest =
    (4 * mantissa - downward mantissa exponent) * twoTo (exponent - 2).toNat := rfl

theorem value_eq : (interval ⟨negative, mantissa, exponent⟩).value = 4 * mantissa * twoTo (exponent - 2).toNat := rfl

theorem highest_eq : (interval ⟨negative, mantissa, exponent⟩).highest =
    (4 * mantissa + 2) * twoTo (exponent - 2).toNat := rfl

theorem denominator_pos (number : Dyadic) : 0 < (interval number).denominator := twoTo_pos _

theorem cast_down (some : 0 < mantissa) :
    ((4 * mantissa - downward mantissa exponent : Nat) : ℚ) = 4 * mantissa - downward mantissa exponent := by
  have down := (downward_bounds mantissa exponent).2
  push_cast [show downward mantissa exponent ≤ 4 * mantissa by omega]
  rfl

/-- The interval of a double holds the numbers that the double is the nearest to. -/
theorem around_of_interval (some : 0 < mantissa) {number : ℚ}
    (inside : (interval ⟨negative, mantissa, exponent⟩).Contains number) : Around mantissa exponent number := by
  have quarter := pow_div_pow 2 two_ne_zero (exponent - 2)
  simp only [Interval.Contains, lowest_eq] at inside
  simp only [interval, decide_eq_true_eq, Nat.cast_mul, cast_down some, Nat.cast_add, cast_twoTo, mul_div_assoc,
    quarter] at inside
  exact inside

theorem value_div (mantissa : Nat) (exponent : Int) : ((interval ⟨negative, mantissa, exponent⟩).value : ℚ) /
    (interval ⟨negative, mantissa, exponent⟩).denominator = 4 * mantissa * 2 ^ (exponent - 2) := by
  rw [value_eq, ← pow_div_pow 2 two_ne_zero (exponent - 2), ← cast_twoTo, ← cast_twoTo]
  push_cast
  exact mul_div_assoc _ _ _

/-- The size of a double lies far within the reach of the estimate of decimal exponents. -/
theorem value_bounds (proper : Proper mantissa exponent) :
    (2 : ℚ) ^ (-1074 : Int) ≤ 4 * mantissa * 2 ^ (exponent - 2) ∧
      4 * mantissa * (2 : ℚ) ^ (exponent - 2) < 2 ^ 1024 := by
  obtain ⟨some, narrow, least, most, -⟩ := proper
  have one : (1 : ℚ) ≤ mantissa := by exact_mod_cast some
  have wide : (mantissa : ℚ) < 2 ^ 53 := by exact_mod_cast narrow
  have four : (2 : ℚ) ^ exponent = 4 * 2 ^ (exponent - 2) := by
    rw [Double.zpow_shift 2 (by omega : exponent = exponent - 2 + (2 : Nat))]
    norm_num
  have unit : (0 : ℚ) < 2 ^ exponent := by positivity
  have low : (2 : ℚ) ^ (-1074 : Int) ≤ 2 ^ exponent := zpow_le_zpow_right₀ one_le_two least
  have high : (2 : ℚ) ^ exponent ≤ 2 ^ (971 : Int) := zpow_le_zpow_right₀ one_le_two most
  have top : (2 : ℚ) ^ 1024 = 2 ^ 53 * 2 ^ (971 : Int) := by
    rw [← zpow_natCast, ← zpow_natCast, ← zpow_add₀ two_ne_zero]
    rfl
  rw [mul_assoc, mul_left_comm, ← four, top]
  constructor
  · exact low.trans (le_mul_of_one_le_left unit.le one)
  · calc (mantissa : ℚ) * 2 ^ exponent < 2 ^ 53 * 2 ^ exponent := by gcongr
      _ ≤ 2 ^ 53 * 2 ^ (971 : Int) := by gcongr

/-- Seventeen digits are always enough. -/
theorem grid_fine (proper : Proper mantissa exponent) :
    let range := interval ⟨negative, mantissa, exponent⟩
    (10 : ℚ) ^ (decimalExponent range.value range.denominator - (16 : Nat)) * range.denominator <
      range.highest - range.lowest := by
  have scale := twoTo_pos (exponent - 2).toNat
  have filled : 0 < (interval ⟨negative, mantissa, exponent⟩).value :=
    Nat.mul_pos (Nat.mul_pos (by decide) proper.some) scale
  have bar : (0 : ℚ) < (interval ⟨negative, mantissa, exponent⟩).denominator := by exact_mod_cast denominator_pos _
  obtain ⟨least, most⟩ := value_bounds proper
  obtain ⟨below, above⟩ := binaryExponent_spec filled (denominator_pos _)
  rw [value_div] at below above
  have high := (zpow_lt_zpow_iff_right₀ (one_lt_two : (1 : ℚ) < 2)).mp
    (below.trans_lt (most.trans_eq (zpow_natCast 2 1024).symm))
  have low := (zpow_lt_zpow_iff_right₀ (one_lt_two : (1 : ℚ) < 2)).mp (least.trans_lt above)
  have tens := decimalExponent_le filled (denominator_pos ⟨negative, mantissa, exponent⟩) (by omega) (by omega)
  rw [le_div_iff₀ bar, value_eq] at tens
  simp only [lowest_eq, highest_eq]
  rw [zpow_sub₀ (by norm_num), div_mul_eq_mul_div, zpow_natCast, div_lt_iff₀ (by norm_num)]
  refine tens.trans_lt ?_
  push_cast [cast_down proper.some]
  have unit : (0 : ℚ) < twoTo (exponent - 2).toNat := by exact_mod_cast scale
  have narrow : 4 * (mantissa : ℚ) < (2 + downward mantissa exponent) * 10 ^ 16 := by
    have narrow := proper.narrow
    unfold downward
    split
    · rename_i first
      rw [first.1]
      norm_num
    · have : (mantissa : ℚ) < 2 ^ 53 := by exact_mod_cast narrow
      norm_num
      linarith
  nlinarith

/-- The shortest digits of a double lie where the double is nearest. -/
theorem shortest_around (proper : Proper mantissa exponent) :
    Around mantissa exponent (shortest ⟨negative, mantissa, exponent⟩).toRat := by
  have down := downward_bounds mantissa exponent
  have scale := twoTo_pos (exponent - 2).toNat
  have lower : (interval ⟨negative, mantissa, exponent⟩).lowest < (interval ⟨negative, mantissa, exponent⟩).value :=
    Nat.mul_lt_mul_of_pos_right (Nat.sub_lt (Nat.mul_pos (by decide) proper.some) down.1) scale
  have upper : (interval ⟨negative, mantissa, exponent⟩).value < (interval ⟨negative, mantissa, exponent⟩).highest :=
    Nat.mul_lt_mul_of_pos_right (Nat.lt_add_of_pos_right (by decide)) scale
  rw [shortest, if_neg (Nat.ne_of_gt proper.some)]
  simp only [trimmed_toRat]
  exact around_of_interval proper.some
    (Interval.search_contains (denominator_pos _) lower upper 16 _ (grid_fine proper))

/-- Between which powers of ten a number lies, by its digits. -/
theorem leading_spec {number : Decimal} (some : 0 < number.digits) :
    (10 : ℚ) ^ number.leading ≤ number.toRat ∧ number.toRat < 10 ^ (number.leading + 1) := by
  obtain ⟨digits, exponent⟩ := number
  have unit : (0 : ℚ) < 10 ^ exponent := by positivity
  have filled : 0 < digitCount digits := Nat.length_toDigits_pos
  have above : digits < 10 ^ digitCount digits := (Nat.length_toDigits_le_iff (by decide) filled).mp (Nat.le_refl _)
  have below : 10 ^ (digitCount digits - 1) ≤ digits := by
    rcases Nat.eq_or_lt_of_le filled with single | more
    · rw [← single]
      exact some
    · have short : ¬digitCount digits ≤ digitCount digits - 1 := by omega
      rwa [digitCount, Nat.length_toDigits_le_iff (by decide) (by change 0 < digitCount digits - 1; omega), not_lt] at short
  have above : (digits : ℚ) < 10 ^ digitCount digits := by exact_mod_cast above
  have below : (10 : ℚ) ^ (digitCount digits - 1) ≤ digits := by exact_mod_cast below
  have place : (⟨digits, exponent⟩ : Decimal).leading = (digitCount digits - 1 : Nat) + exponent := by
    simp only [leading]
    omega
  have next : (⟨digits, exponent⟩ : Decimal).leading + 1 = digitCount digits + exponent := by omega
  rw [next, place, zpow_add₀ (by norm_num), zpow_add₀ (by norm_num), zpow_natCast, zpow_natCast]
  exact ⟨mul_le_mul_of_nonneg_right below unit.le, mul_lt_mul_of_pos_right above unit⟩

/-- The doubles lie far within the powers of ten that are computed. -/
theorem powers_apart : (2 : ℚ) * 2 ^ 1024 < 10 ^ (401 : Int) ∧ (10 : ℚ) ^ (-400 : Int) < 2 ^ (-1074 : Int) / 2 := by
  have high : 2 * twoTo 1024 < tenTo 401 := by decide +kernel
  have low : 2 * twoTo 1074 < tenTo 400 := by decide +kernel
  have high : (2 : ℚ) * twoTo 1024 < tenTo 401 := by exact_mod_cast high
  have low : (2 : ℚ) * twoTo 1074 < tenTo 400 := by exact_mod_cast low
  rw [cast_twoTo, cast_tenTo] at high low
  refine ⟨high, ?_⟩
  rw [zpow_neg, zpow_neg, zpow_ofNat, zpow_ofNat, div_eq_mul_inv, ← mul_inv, mul_comm]
  exact inv_strictAnti₀ (mul_pos two_pos (pow_pos two_pos _)) low

/-- A decimal around a double is read as that double. -/
theorem toDouble_of_around {mantissa : Nat} {exponent : Int} (proper : Proper mantissa exponent) {number : Decimal}
    (around : Around mantissa exponent number.toRat) (negative : Bool) :
    number.toDouble negative = Double.ofMagnitude negative ((exponent + 1074).toNat * 2 ^ 52 + mantissa) := by
  obtain ⟨least, most⟩ := value_bounds proper
  obtain ⟨lower, upper⟩ := around.bounds
  have down : (downward mantissa exponent : ℚ) ≤ 2 := by exact_mod_cast (downward_bounds mantissa exponent).2
  have one : (1 : ℚ) ≤ mantissa := by exact_mod_cast proper.some
  have unit : (0 : ℚ) < 2 ^ (exponent - 2) := by positivity
  -- The number lies between half the double and its double.
  have low : (4 * mantissa * 2 ^ (exponent - 2) : ℚ) / 2 ≤ number.toRat := by nlinarith
  have high : number.toRat ≤ 2 * (4 * mantissa * 2 ^ (exponent - 2)) := by nlinarith
  have some : 0 < number.digits := by
    refine Nat.pos_of_ne_zero fun none => ?_
    have : number.toRat = 0 := by simp [toRat, none]
    nlinarith
  obtain ⟨below, above⟩ := leading_spec some
  obtain ⟨highest, lowest⟩ := powers_apart
  have small : ¬number.leading > 400 := by
    intro large
    have : (10 : ℚ) ^ (401 : Int) ≤ 10 ^ number.leading := zpow_le_zpow_right₀ (by norm_num) (by omega)
    exact absurd (this.trans (below.trans high)) ((mul_lt_mul_of_pos_left most two_pos).trans highest).not_ge
  have large : ¬number.leading < -400 := by
    intro small
    have : (10 : ℚ) ^ (number.leading + 1) ≤ 10 ^ (-400 : Int) := zpow_le_zpow_right₀ (by norm_num) (by omega)
    exact absurd ((div_le_div_of_nonneg_right least zero_le_two).trans low)
      ((above.trans_le this).trans lowest).not_ge
  have quotient : ((number.digits * tenTo number.exponent.toNat : Nat) : ℚ) / (tenTo (-number.exponent).toNat : Nat) =
      number.toRat := by
    rw [toRat, ← pow_div_pow 10 (by norm_num) number.exponent, ← cast_tenTo, ← cast_tenTo]
    push_cast
    exact mul_div_assoc _ _ _
  have tens (power : Nat) : 0 < tenTo power := Nat.pow_pos (by decide)
  rw [toDouble, if_neg some.ne', if_neg small, if_neg large, Double.ofQuotient,
    around.nearest proper (Nat.mul_pos some (tens _)) (tens _) quotient]

end Decimal

namespace Double

/-- The shortest digits of a double, and whatever else denotes the same number, are read as that double. -/
theorem toDouble_shortest {number : Float} {value : Dyadic} (known : kind number = .finite value)
    {decimal : Decimal} (same : decimal.toRat = (Decimal.shortest value).toRat) :
    decimal.toDouble value.negative = number := by
  obtain ⟨proper, whole⟩ := whole_of_kind known
  by_cases none : value.mantissa = 0
  · have zero : decimal.digits = 0 := by
      have tens : (10 : ℚ) ^ decimal.exponent ≠ 0 := by positivity
      rw [Decimal.shortest, if_pos none] at same
      simpa [Decimal.toRat, tens] using same
    rw [Decimal.toDouble, if_pos zero, whole, none, exponent_of_zero known none]
    rfl
  · have around : Around value.mantissa value.exponent decimal.toRat := same ▸ Decimal.shortest_around (proper none)
    rw [Decimal.toDouble_of_around (proper none) around, ← whole]

end Double

end Formula
