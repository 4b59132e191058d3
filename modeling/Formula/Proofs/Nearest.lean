import Formula.Proofs.Halves
import Formula.Number.Reading

/-!
Which numbers a double is the nearest to: those up to halfway to its neighbours, and the two halfway numbers
themselves if its mantissa is even.
-/

namespace Formula

/-- Halfway between two integers the even one is the nearest. -/
theorem nearestQuotient_half {numerator denominator nearest : Nat} (positive : 0 < denominator) (even : nearest % 2 = 0)
    (half : 2 * numerator = 2 * (denominator * nearest) + denominator ∨
      2 * numerator + denominator = 2 * (denominator * nearest)) :
    nearestQuotient numerator denominator = nearest := by
  have split := Nat.div_add_mod numerator denominator
  have rest := Nat.mod_lt numerator positive
  simp only [nearestQuotient]
  generalize numerator / denominator = quotient at *
  generalize numerator % denominator = remainder at *
  have compare : quotient + 1 < nearest ∨ quotient + 1 = nearest ∨ quotient = nearest ∨ nearest + 1 ≤ quotient := by
    omega
  rcases compare with less | rfl | rfl | more
  · have := Nat.mul_le_mul_left denominator less
    simp only [Nat.mul_add, Nat.mul_one, Nat.succ_eq_add_one] at *
    omega
  · simp only [Nat.mul_add, Nat.mul_one] at *
    rw [if_neg (by omega), if_pos (by omega)]
    omega
  · rw [if_neg (by omega), if_pos (by omega)]
    omega
  · have := Nat.mul_le_mul_left denominator more
    simp only [Nat.mul_add, Nat.mul_one] at *
    omega

/-- An integer nearest to a number; halfway between two the even one. -/
def Nearest (value : ℚ) (integer : Nat) : Prop :=
  |value - integer| < 1 / 2 ∨ |value - integer| = 1 / 2 ∧ integer % 2 = 0

theorem Nearest.nearestQuotient {numerator denominator integer : Nat} (positive : 0 < denominator)
    (near : Nearest (numerator / denominator) integer) : nearestQuotient numerator denominator = integer := by
  have unit : (0 : ℚ) < denominator := by exact_mod_cast positive
  have scaled : |(numerator : ℚ) / denominator - integer| * denominator =
      |(numerator : ℚ) - denominator * integer| := by
    rw [← abs_of_pos unit, ← abs_mul, abs_of_pos unit, sub_mul, div_mul_cancel₀ _ unit.ne', mul_comm (integer : ℚ)]
  rcases near with near | ⟨half, even⟩
  · have bound : |(numerator : ℚ) - denominator * integer| < denominator / 2 := by
      rw [← scaled]
      linarith [mul_lt_mul_of_pos_right near unit]
    obtain ⟨below, above⟩ := abs_lt.mp bound
    refine nearestQuotient_near ?_ ?_
    · have : 2 * ((denominator : ℚ) * integer) < 2 * numerator + denominator := by linarith
      exact_mod_cast this
    · have : 2 * (numerator : ℚ) < 2 * (denominator * integer) + denominator := by linarith
      exact_mod_cast this
  · rw [half] at scaled
    refine nearestQuotient_half positive even ?_
    rcases abs_cases ((numerator : ℚ) - denominator * integer) with ⟨same, -⟩ | ⟨same, -⟩
    · left
      have : 2 * (numerator : ℚ) = 2 * (denominator * integer) + denominator := by linarith
      exact_mod_cast this
    · right
      have : 2 * (numerator : ℚ) + denominator = 2 * (denominator * integer) := by linarith
      exact_mod_cast this

theorem cast_twoTo (exponent : Nat) : (twoTo exponent : ℚ) = 2 ^ exponent := by
  simp [twoTo]

theorem cast_tenTo (exponent : Nat) : (tenTo exponent : ℚ) = 10 ^ exponent := by
  simp [tenTo]

/-- A power above or below the fraction bar, by the sign of its exponent. -/
theorem pow_div_pow (base : ℚ) (proper : base ≠ 0) (exponent : Int) :
    base ^ exponent.toNat / base ^ (-exponent).toNat = base ^ exponent := by
  rw [← zpow_natCast, ← zpow_natCast, ← zpow_sub₀ proper]
  congr 1
  omega

/-- The exponent of a quotient says between which powers of two it lies. -/
theorem binaryExponent_spec {numerator denominator : Nat} (some : 0 < numerator) (positive : 0 < denominator) :
    (2 : ℚ) ^ binaryExponent numerator denominator ≤ numerator / denominator ∧
      (numerator / denominator : ℚ) < 2 ^ (binaryExponent numerator denominator + 1) := by
  have unit : (0 : ℚ) < denominator := by exact_mod_cast positive
  have lower : (2 : ℚ) ^ numerator.log2 ≤ numerator := by exact_mod_cast Nat.log2_self_le some.ne'
  have upper : (numerator : ℚ) < 2 ^ (numerator.log2 + 1) := by exact_mod_cast Nat.lt_log2_self (n := numerator)
  have lowerUnit : (2 : ℚ) ^ denominator.log2 ≤ denominator := by exact_mod_cast Nat.log2_self_le positive.ne'
  have upperUnit : (denominator : ℚ) < 2 ^ (denominator.log2 + 1) := by
    exact_mod_cast Nat.lt_log2_self (n := denominator)
  -- The guess is too large by at most one, which the comparison finds out.
  have compare (guess : Int) : (denominator * twoTo guess.toNat ≤ numerator * twoTo (-guess).toNat) ↔
      (2 : ℚ) ^ guess ≤ numerator / denominator := by
    rw [← pow_div_pow 2 (by norm_num) guess, div_le_div_iff₀ (by positivity) unit, ← cast_twoTo, ← cast_twoTo]
    norm_cast
    rw [mul_comm denominator, mul_comm numerator]
  have below : (2 : ℚ) ^ ((numerator.log2 : Int) - denominator.log2 - 1) ≤ numerator / denominator := by
    rw [le_div_iff₀ unit]
    calc (2 : ℚ) ^ ((numerator.log2 : Int) - denominator.log2 - 1) * denominator
        ≤ 2 ^ ((numerator.log2 : Int) - denominator.log2 - 1) * 2 ^ (denominator.log2 + 1) := by gcongr
      _ = 2 ^ numerator.log2 := by
        rw [← zpow_natCast, ← zpow_natCast, ← zpow_add₀ two_ne_zero]
        congr 1
        push_cast
        omega
      _ ≤ numerator := lower
  have above : (numerator / denominator : ℚ) < 2 ^ ((numerator.log2 : Int) - denominator.log2 + 1) := by
    rw [div_lt_iff₀ unit]
    calc (numerator : ℚ) < 2 ^ (numerator.log2 + 1) := upper
      _ = 2 ^ ((numerator.log2 : Int) - denominator.log2 + 1) * 2 ^ denominator.log2 := by
        rw [← zpow_natCast, ← zpow_natCast, ← zpow_add₀ two_ne_zero]
        congr 1
        push_cast
        omega
      _ ≤ 2 ^ ((numerator.log2 : Int) - denominator.log2 + 1) * denominator := by gcongr
  simp only [binaryExponent]
  split_ifs with enough
  · exact ⟨(compare _).mp enough, above⟩
  · refine ⟨below, ?_⟩
    rw [compare, not_le] at enough
    rwa [sub_add_cancel]

namespace Double

/-- The pattern of the number nearest to a quotient, by the unit of its last place. -/
theorem nearest_of_unit {numerator denominator mantissa : Nat} {value : ℚ} {unit : Int} (some : 0 < numerator)
    (positive : 0 < denominator) (same : (numerator / denominator : ℚ) = value) (least : -1074 ≤ unit)
    (above : unit = -1074 ∨ 2 ^ (unit + 52) ≤ value) (below : value < 2 ^ (unit + 53))
    (near : Nearest (value / 2 ^ unit) mantissa) :
    format.nearest numerator denominator = min ((unit + 1074).toNat * 2 ^ 52 + mantissa) (2047 * 2 ^ 52) := by
  obtain ⟨lower, upper⟩ := binaryExponent_spec some positive
  rw [same] at lower upper
  have high : binaryExponent numerator denominator < unit + 53 :=
    (zpow_lt_zpow_iff_right₀ one_lt_two).mp (lower.trans_lt below)
  have low : unit = -1074 ∨ unit + 52 < binaryExponent numerator denominator + 1 :=
    above.imp_right fun above => (zpow_lt_zpow_iff_right₀ one_lt_two).mp (above.trans_lt upper)
  have chosen : max (binaryExponent numerator denominator - (52 : Nat)) (-1074) = unit := by omega
  have rounded : nearestQuotient (numerator * twoTo (-unit).toNat) (denominator * twoTo unit.toNat) = mantissa := by
    refine Nearest.nearestQuotient (Nat.mul_pos positive (twoTo_pos _)) ?_
    convert near using 1
    rw [← same, ← pow_div_pow 2 two_ne_zero unit]
    push_cast
    rw [cast_twoTo, cast_twoTo, div_div_div_eq]
  simp only [BinaryFormat.nearest, if_neg some.ne', format, chosen, rounded]
  rfl

/-- The size of a double other than zero, by its mantissa and the exponent of its last place. -/
structure Proper (mantissa : Nat) (exponent : Int) : Prop where
  some : 0 < mantissa
  narrow : mantissa < 2 ^ 53
  least : -1074 ≤ exponent
  most : exponent ≤ 971
  normal : mantissa < 2 ^ 52 → exponent = -1074

/-- How many quarters of its last place lie between a double and halfway to the one below it. -/
def downward (mantissa : Nat) (exponent : Int) : Nat := if mantissa = 2 ^ 52 ∧ -1074 < exponent then 1 else 2

theorem downward_bounds (mantissa : Nat) (exponent : Int) :
    1 ≤ downward mantissa exponent ∧ downward mantissa exponent ≤ 2 := by
  unfold downward
  split <;> decide

/-- The numbers that a double is the nearest to. Halfway to its neighbours this holds of the even ones. -/
def Around (mantissa : Nat) (exponent : Int) (value : ℚ) : Prop :=
  let quarter : ℚ := 2 ^ (exponent - 2)
  let lowest := (4 * mantissa - downward mantissa exponent) * quarter
  let highest := (4 * mantissa + 2) * quarter
  if mantissa % 2 = 0 then lowest ≤ value ∧ value ≤ highest else lowest < value ∧ value < highest

/-- A number no more than half away from an integer is nearest to it, if less than half or if the integer is even. -/
theorem nearest_of_half {value : ℚ} {integer : Nat} (close : |value - integer| ≤ 1 / 2)
    (closer : integer % 2 = 0 ∨ |value - integer| < 1 / 2) : Nearest value integer := by
  rcases close.lt_or_eq with less | half
  · exact .inl less
  · exact .inr ⟨half, closer.resolve_right half.not_lt⟩

theorem zpow_shift {exponent other : Int} (shift : Nat) (place : other = exponent + shift) :
    (2 : ℚ) ^ other = 2 ^ shift * 2 ^ exponent := by
  rw [place, zpow_add₀ two_ne_zero, zpow_natCast, mul_comm]

namespace Around

variable {mantissa : Nat} {exponent : Int} {value : ℚ}

theorem bounds (around : Around mantissa exponent value) :
    (4 * mantissa - downward mantissa exponent) * (2 : ℚ) ^ (exponent - 2) ≤ value ∧
      value ≤ (4 * mantissa + 2) * 2 ^ (exponent - 2) := by
  unfold Around at around
  split at around
  · exact around
  · exact ⟨around.1.le, around.2.le⟩

/-- The distance from a double in units of its last place. -/
theorem distance (mantissa : Nat) (exponent : Int) (value : ℚ) :
    value / 2 ^ exponent - mantissa = (value - 4 * mantissa * 2 ^ (exponent - 2)) / (4 * 2 ^ (exponent - 2)) := by
  have unit : (2 : ℚ) ^ (exponent - 2) ≠ 0 := (zpow_pos two_pos _).ne'
  rw [zpow_shift 2 (by omega : exponent = exponent - 2 + (2 : Nat))]
  field_simp
  ring

theorem near (around : Around mantissa exponent value) : Nearest (value / 2 ^ exponent) mantissa := by
  have down : (downward mantissa exponent : ℚ) ≤ 2 := by exact_mod_cast (downward_bounds mantissa exponent).2
  have unit : (0 : ℚ) < 2 ^ (exponent - 2) := by positivity
  obtain ⟨lower, upper⟩ := around.bounds
  refine nearest_of_half ?_ ?_
  · rw [distance, abs_le, div_le_iff₀ (by positivity), le_div_iff₀ (by positivity)]
    constructor <;> nlinarith
  · unfold Around at around
    split at around
    · exact .inl ‹_›
    · obtain ⟨lower, upper⟩ := around
      refine .inr ?_
      rw [distance, abs_lt, div_lt_iff₀ (by positivity), lt_div_iff₀ (by positivity)]
      constructor <;> nlinarith

theorem lt_next (around : Around mantissa exponent value) (narrow : mantissa < 2 ^ 53) : value < 2 ^ (exponent + 53) := by
  have unit : (0 : ℚ) < 2 ^ (exponent - 2) := by positivity
  have wide : (mantissa : ℚ) + 1 ≤ 2 ^ 53 := by exact_mod_cast narrow
  rw [zpow_shift 55 (by omega : exponent + 53 = exponent - 2 + (55 : Nat))]
  have upper := around.bounds.2
  nlinarith

/-- Only around a power of two there are numbers below the power itself. -/
theorem first (around : Around mantissa exponent value) (wide : 2 ^ 52 ≤ mantissa) (low : value < 2 ^ (exponent + 52)) :
    mantissa = 2 ^ 52 := by
  by_contra other
  have unit : (0 : ℚ) < 2 ^ (exponent - 2) := by positivity
  have next : (2 ^ 52 + 1 : ℚ) ≤ mantissa := by exact_mod_cast Nat.lt_of_le_of_ne wide (Ne.symm other)
  have down : (downward mantissa exponent : ℚ) ≤ 2 := by exact_mod_cast (downward_bounds mantissa exponent).2
  rw [zpow_shift 54 (by omega : exponent + 52 = exponent - 2 + (54 : Nat))] at low
  have lower := around.bounds.1
  nlinarith

/-- Below a power of two the unit is half as large, and the mantissa is rounded up to the power. -/
theorem below (around : Around (2 ^ 52) exponent value) (inner : -1074 < exponent) (low : value < 2 ^ (exponent + 52)) :
    2 ^ (exponent - 1 + 52) ≤ value ∧ Nearest (value / 2 ^ (exponent - 1)) (2 ^ 53) := by
  have unit : (0 : ℚ) < 2 ^ (exponent - 2) := by positivity
  have down : downward (2 ^ 52) exponent = 1 := if_pos ⟨rfl, inner⟩
  have lower := around.bounds.1
  rw [down] at lower
  push_cast at lower
  rw [zpow_shift 54 (by omega : exponent + 52 = exponent - 2 + (54 : Nat))] at low
  constructor
  · rw [zpow_shift 53 (by omega : exponent - 1 + 52 = exponent - 2 + (53 : Nat))]
    nlinarith
  · have off : value / 2 ^ (exponent - 1) - (2 ^ 53 : Nat) =
        (value - 2 ^ 54 * 2 ^ (exponent - 2)) / (2 * 2 ^ (exponent - 2)) := by
      rw [zpow_shift 1 (by omega : exponent - 1 = exponent - 2 + (1 : Nat))]
      push_cast
      field_simp
      ring
    refine nearest_of_half ?_ (.inl rfl)
    rw [off, abs_le, div_le_iff₀ (by positivity), le_div_iff₀ (by positivity)]
    constructor <;> nlinarith

/-- Whatever lies around a double is read as that double. -/
theorem nearest {numerator denominator : Nat} (around : Around mantissa exponent value) (proper : Proper mantissa exponent)
    (some : 0 < numerator) (positive : 0 < denominator) (same : (numerator / denominator : ℚ) = value) :
    format.nearest numerator denominator = (exponent + 1074).toNat * 2 ^ 52 + mantissa := by
  obtain ⟨-, narrow, least, most, normal⟩ := proper
  by_cases high : exponent = -1074 ∨ 2 ^ (exponent + 52) ≤ value
  · rw [nearest_of_unit some positive same least high (around.lt_next narrow) around.near]
    omega
  · obtain ⟨inner, low⟩ := not_or.mp high
    rw [not_le] at low
    obtain rfl := around.first (Nat.le_of_not_lt fun less => inner (normal less)) low
    obtain ⟨above, near⟩ := around.below (by omega) low
    have next : value < 2 ^ (exponent - 1 + 53) := by rwa [show exponent - 1 + 53 = exponent + 52 by omega]
    rw [nearest_of_unit some positive same (by omega) (.inr above) next near]
    omega

end Around

/-- A finite double is put together from its sign, its mantissa and its exponent. -/
theorem whole_of_kind {number : Float} {value : Dyadic} (known : kind number = .finite value) :
    (value.mantissa ≠ 0 → Proper value.mantissa value.exponent) ∧
      number = ofMagnitude value.negative ((value.exponent + 1074).toNat * 2 ^ 52 + value.mantissa) := by
  have bound : number.toBits.toNat < 2 ^ 64 := number.toBits.toNat_lt
  have whole (negative : Bool) (size : Nat)
      (same : number.toBits.toNat = size + if negative then twoTo 63 else 0) : number = ofMagnitude negative size := by
    rw [ofMagnitude, ← same, UInt64.ofNat_toNat, Float.ofBits_toBits]
  simp only [kind] at known
  generalize number.toBits.toNat = bits at *
  have sign : (if (bits / twoTo 63 == 1) = true then twoTo 63 else 0) = bits / 2 ^ 63 * 2 ^ 63 := by
    rcases Nat.le_one_iff_eq_zero_or_eq_one.mp (by omega : bits / 2 ^ 63 ≤ 1) with none | one
    · rw [show twoTo 63 = 2 ^ 63 from rfl, none]
      rfl
    · rw [show twoTo 63 = 2 ^ 63 from rfl, one]
      rfl
  simp only [show twoTo 52 = 2 ^ 52 from rfl, show twoTo 11 = 2 ^ 11 from rfl] at known
  split_ifs at known with top infinite first
  · cases known
    exact ⟨fun some => ⟨Nat.pos_of_ne_zero some, by dsimp only; omega, by dsimp only; omega, by dsimp only; omega,
      fun _ => rfl⟩, whole _ _ (by rw [sign]; dsimp only; omega)⟩
  · cases known
    exact ⟨fun _ => ⟨by dsimp only; omega, by dsimp only; omega, by dsimp only; omega, by dsimp only; omega,
      fun _ => by dsimp only at *; omega⟩, whole _ _ (by rw [sign]; dsimp only; omega)⟩

theorem exponent_of_zero {number : Float} {value : Dyadic} (known : kind number = .finite value)
    (none : value.mantissa = 0) : value.exponent = -1074 := by
  simp only [kind, show twoTo 52 = 2 ^ 52 from rfl] at known
  split_ifs at known
  · cases known
    rfl
  · cases known
    dsimp only at none
    omega

end Double

end Formula
