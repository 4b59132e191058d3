import Formula.Proofs.Doubles

/-!
How a double is rounded: the mantissa of a number becomes the nearest quotient by a power of two, and a carry moves
the exponent. What is rounded so survives being packed, and can be read back.
-/

namespace Formula

open Float.Model (UnpackedFloat Format totalExponent)
open Float.Model.UnpackedFloat (Sign Accuracy ExtendedMantissa shiftToTargetExponent shiftToExponent
  roundWithAccuracy decreaseExponent packComponents)

theorem nearestQuotient_mul (numerator denominator : Nat) {factor : Nat} (positive : 0 < factor) :
    nearestQuotient (numerator * factor) (denominator * factor) = nearestQuotient numerator denominator := by
  have rest : 2 * (numerator * factor % (denominator * factor)) = 2 * (numerator % denominator) * factor := by
    rw [Nat.mul_mod_mul_right, Nat.mul_assoc]
  unfold nearestQuotient
  simp only [rest, Nat.mul_div_mul_right _ _ positive, Nat.mul_lt_mul_right positive,
    Nat.mul_left_inj (Nat.ne_of_gt positive)]

/-- The nearest integer, where one is nearer than half. -/
theorem nearestQuotient_near {numerator denominator nearest : Nat}
    (below : 2 * (denominator * nearest) < 2 * numerator + denominator)
    (above : 2 * numerator < 2 * (denominator * nearest) + denominator) :
    nearestQuotient numerator denominator = nearest := by
  have positive : 0 < denominator := by omega
  have split := Nat.div_add_mod numerator denominator
  have rest := Nat.mod_lt numerator positive
  unfold nearestQuotient
  generalize numerator / denominator = quotient at *
  generalize numerator % denominator = remainder at *
  have compare : quotient < nearest ∨ quotient = nearest ∨ nearest < quotient := by omega
  rcases compare with less | rfl | more
  · obtain ⟨gap, rfl⟩ : ∃ gap, nearest = quotient + 1 + gap := ⟨nearest - quotient - 1, by omega⟩
    have none : gap = 0 := by
      by_contra some
      have := Nat.mul_le_mul_left denominator (Nat.one_le_iff_ne_zero.mpr some)
      simp only [Nat.mul_add, Nat.mul_one] at *
      omega
    subst none
    simp only [Nat.mul_add, Nat.mul_one, Nat.add_zero] at *
    rw [if_neg (by omega), if_neg (by omega)]
  · rw [if_pos (by omega)]
  · obtain ⟨gap, rfl⟩ : ∃ gap, quotient = nearest + 1 + gap := ⟨quotient - nearest - 1, by omega⟩
    simp only [Nat.mul_add, Nat.mul_one] at *
    omega

theorem nearestQuotient_exact (nearest : Nat) {denominator : Nat} (positive : 0 < denominator) :
    nearestQuotient (denominator * nearest) denominator = nearest :=
  nearestQuotient_near (by omega) (by omega)

/-- Halfway below an even integer counts as that integer. -/
theorem nearestQuotient_lt {numerator denominator bound : Nat} (positive : 0 < denominator)
    (even : bound % 2 = 0) : nearestQuotient numerator denominator < bound ↔
      2 * numerator + denominator < 2 * (denominator * bound) := by
  have split := Nat.div_add_mod numerator denominator
  have rest := Nat.mod_lt numerator positive
  simp only [nearestQuotient]
  generalize numerator / denominator = quotient at *
  generalize numerator % denominator = remainder at *
  have compare : bound ≤ quotient ∨ quotient + 1 = bound ∨ quotient + 1 < bound := by omega
  rcases compare with reached | rfl | more
  · have := Nat.mul_le_mul_left denominator reached
    split_ifs <;> omega
  · simp only [Nat.mul_add, Nat.mul_one] at *
    split_ifs <;> omega
  · have := Nat.mul_le_mul_left denominator more
    simp only [Nat.mul_add, Nat.mul_one, Nat.succ_eq_add_one] at *
    split_ifs <;> omega

theorem div_le_nearestQuotient (numerator denominator : Nat) :
    numerator / denominator ≤ nearestQuotient numerator denominator := by
  simp only [nearestQuotient]
  split_ifs <;> omega

theorem nearestQuotient_le (numerator denominator : Nat) :
    nearestQuotient numerator denominator ≤ numerator / denominator + 1 := by
  simp only [nearestQuotient]
  split_ifs <;> omega

/-- What is left of a mantissa after a shift, and what the two bits behind it tell of the rest. -/
structure Shifted (number shift : Nat) (shifted : ExtendedMantissa) : Prop where
  mantissa : shifted.mantissa = number / 2 ^ shift
  round : shifted.roundBit = decide (2 ^ shift ≤ 2 * (number % 2 ^ shift))
  sticky : shifted.stickyBit = decide (2 * (number % 2 ^ shift) ≠ 0 ∧ 2 * (number % 2 ^ shift) ≠ 2 ^ shift)

theorem Shifted.next {number shift : Nat} {shifted : ExtendedMantissa} (known : Shifted number shift shifted) :
    Shifted number (shift + 1) shifted.shiftRightOne := by
  obtain ⟨mantissa, round, sticky⟩ := known
  have small := Nat.mod_lt number (Nat.two_pow_pos shift)
  have rest : number % (2 ^ shift * 2) = number % 2 ^ shift + 2 ^ shift * (number / 2 ^ shift % 2) := Nat.mod_mul
  have parity : number / 2 ^ shift % 2 = 0 ∨ number / 2 ^ shift % 2 = 1 := by omega
  refine ⟨?_, ?_, ?_⟩
  · rw [ExtendedMantissa.shiftRightOne, mantissa, Nat.div_div_eq_div_mul, Nat.pow_succ]
  · rw [ExtendedMantissa.shiftRightOne, mantissa, Nat.pow_succ, rest, Bool.eq_iff_iff, bne_iff_ne,
      decide_eq_true_iff]
    rcases parity with even | odd
    · rw [even]; omega
    · rw [odd]; omega
  · rw [ExtendedMantissa.shiftRightOne, round, sticky, Nat.pow_succ, rest, Bool.eq_iff_iff, Bool.or_eq_true,
      decide_eq_true_iff, decide_eq_true_iff, decide_eq_true_iff]
    rcases parity with even | odd
    · rw [even]; omega
    · rw [odd]; omega

theorem shifted_shift (number shift : Nat) :
    Shifted number shift (ExtendedMantissa.ofMantissaAndAccuracy number .exact >>> shift) := by
  change Shifted number shift (shift.repeat ExtendedMantissa.shiftRightOne _)
  induction shift with
  | zero => constructor <;> simp [Nat.repeat, ExtendedMantissa.ofMantissaAndAccuracy, Nat.mod_one]
  | succ shift ih => exact ih.next

/-- Rounding by the two bits behind a mantissa gives the nearest quotient. -/
theorem Shifted.rounded {number shift : Nat} {shifted : ExtendedMantissa} (known : Shifted number shift shifted) :
    shifted.roundedMantissa = nearestQuotient number (2 ^ shift) := by
  obtain ⟨mantissa, round, sticky⟩ := known
  obtain ⟨mantissa, roundBit, stickyBit⟩ := shifted
  simp only at *
  subst mantissa round sticky
  have unit := Nat.two_pow_pos shift
  simp only [nearestQuotient]
  generalize 2 * (number % 2 ^ shift) = rest
  rcases lt_trichotomy rest (2 ^ shift) with less | same | more
  · rw [if_pos less, decide_eq_false (by omega)]
    cases decide (rest ≠ 0 ∧ rest ≠ 2 ^ shift) <;> rfl
  · subst same
    rw [if_neg (by omega), if_pos rfl, decide_eq_true (by omega), decide_eq_false (by omega)]
    rfl
  · rw [if_neg (by omega), if_neg (by omega), decide_eq_true (by omega), decide_eq_true (by omega)]
    rfl

/-- The leading 53 bits of a number, rounded. -/
theorem nearest_leading {number : Nat} (wide : 52 ≤ number.log2) :
    2 ^ 52 ≤ nearestQuotient number (2 ^ (number.log2 - 52)) ∧
      nearestQuotient number (2 ^ (number.log2 - 52)) ≤ 2 ^ 53 := by
  have some : number ≠ 0 := by
    rintro rfl
    simp at wide
  have lower := Nat.log2_self_le some
  have upper := Nat.lt_log2_self (n := number)
  have cut : 2 ^ number.log2 = 2 ^ 52 * 2 ^ (number.log2 - 52) := by
    rw [← Nat.pow_add]
    congr 1
    omega
  rw [Nat.pow_succ, cut] at upper
  rw [cut] at lower
  have unit := Nat.two_pow_pos (number.log2 - 52)
  constructor
  · exact ((Nat.le_div_iff_mul_le unit).mpr lower).trans (div_le_nearestQuotient _ _)
  · refine (nearestQuotient_le _ _).trans ((Nat.div_lt_iff_lt_mul unit).mpr ?_)
    rwa [Nat.mul_right_comm] at upper

theorem targetExponent_binary64 (total : Int) : Format.binary64.targetExponent total = max (total - 53) (-1074) := rfl

/-- A number that needs no more bits stays as it is. -/
theorem shift_fitting {mantissa : Nat} {exponent : Int} (fits : mantissa.log2 ≤ 52) (least : -1074 ≤ exponent) :
    shiftToTargetExponent .binary64 mantissa exponent .exact = (⟨mantissa, false, false⟩, exponent) := by
  have none : (max ((mantissa.log2 : Int) + 1 + exponent - 53) (-1074) - exponent).toNat = 0 := by omega
  rw [shiftToTargetExponent, shiftToExponent, targetExponent_binary64, totalExponent, none]
  exact Prod.ext rfl (Int.add_zero exponent)

theorem shift_carried {exponent : Int} (least : -1074 ≤ exponent) :
    shiftToTargetExponent .binary64 (2 ^ 53) exponent .exact = (⟨2 ^ 52, false, false⟩, exponent + 1) := by
  have one : (max (((2 ^ 53 : Nat).log2 : Int) + 1 + exponent - 53) (-1074) - exponent).toNat = 1 := by
    rw [Nat.log2_two_pow]
    omega
  rw [shiftToTargetExponent, shiftToExponent, targetExponent_binary64, totalExponent, one]
  rfl

theorem roundWithAccuracy_eq {spec : Format} (sign : Sign) {number nearest : Nat} {exponent between after : Int}
    {accuracy : Accuracy} {shifted final : ExtendedMantissa}
    (first : shiftToTargetExponent spec number exponent accuracy = (shifted, between))
    (rounded : shifted.roundedMantissa = nearest)
    (second : shiftToTargetExponent spec nearest between .exact = (final, after)) (positive : 0 < final.mantissa) :
    roundWithAccuracy spec sign number exponent accuracy = .finite sign final.mantissa after positive := by
  subst rounded
  simp only [roundWithAccuracy, first, second]
  exact dif_neg (Nat.ne_of_gt positive)

/-- A number of 53 bits or more is rounded to its leading ones, and a carry out of them moves the exponent. -/
theorem round_leading (sign : Sign) {number : Nat} (exponent : Int) (wide : 52 ≤ number.log2)
    (normal : -1074 ≤ exponent + (number.log2 - 52)) :
    ∃ mantissa moved positive,
      UnpackedFloat.round .binary64 sign number exponent = .finite sign mantissa moved positive ∧
      (mantissa = nearestQuotient number (2 ^ (number.log2 - 52)) ∧ 2 ^ 52 ≤ mantissa ∧ mantissa < 2 ^ 53 ∧
          moved = exponent + (number.log2 - 52) ∨
        mantissa = 2 ^ 52 ∧ nearestQuotient number (2 ^ (number.log2 - 52)) = 2 ^ 53 ∧
          moved = exponent + (number.log2 - 52) + 1) := by
  obtain ⟨lower, upper⟩ := nearest_leading wide
  have kept : (exponent - max ((number.log2 : Int) + 1 + exponent - 53) (-1074)).toNat = 0 := by omega
  have dropped : (max ((number.log2 : Int) + 1 + exponent - 53) (-1074) - exponent).toNat = number.log2 - 52 := by
    omega
  have same : UnpackedFloat.round .binary64 sign number exponent =
      roundWithAccuracy .binary64 sign number exponent .exact := by
    simp only [UnpackedFloat.round, decreaseExponent, targetExponent_binary64, totalExponent, kept,
      Nat.shiftLeft_zero]
    exact congrArg (roundWithAccuracy .binary64 sign number · .exact) (Int.sub_zero exponent)
  have first : shiftToTargetExponent .binary64 number exponent .exact =
      (ExtendedMantissa.ofMantissaAndAccuracy number .exact >>> (number.log2 - 52),
        exponent + (number.log2 - 52 : Nat)) := by
    rw [shiftToTargetExponent, shiftToExponent, targetExponent_binary64, totalExponent, dropped]
  have rounded := (shifted_shift number (number.log2 - 52)).rounded
  have least : -1074 ≤ exponent + ((number.log2 - 52 : Nat) : Int) := by omega
  rw [same]
  rcases Nat.lt_or_eq_of_le upper with less | carried
  · have fits : (nearestQuotient number (2 ^ (number.log2 - 52))).log2 ≤ 52 :=
      Nat.lt_succ_iff.mp ((Nat.log2_lt (by omega)).mpr less)
    have positive : 0 < nearestQuotient number (2 ^ (number.log2 - 52)) := by omega
    exact ⟨_, _, positive, roundWithAccuracy_eq sign first rounded (shift_fitting fits least) positive,
      .inl ⟨rfl, lower, less, by push_cast [wide]; omega⟩⟩
  · have positive : 0 < 2 ^ 52 := by decide
    exact ⟨_, _, positive, roundWithAccuracy_eq sign first (rounded.trans carried) (shift_carried least) positive,
      .inr ⟨rfl, carried, by push_cast [wide]; omega⟩⟩

/-- The sign of a number that is negative or not. -/
def signOf (negative : Bool) : Sign := if negative then .negative else .positive

theorem unpackSign_packComponents {spec : Format} {sign : Sign} {exponent : BitVec spec.exponentBits}
    {mantissa : BitVec spec.mantissaBitsWithoutImplicit} :
    UnpackedFloat.unpackSign (packComponents spec sign exponent mantissa) = sign.toBitVec := by
  ext i hi
  obtain rfl : i = 0 := by omega
  simp [UnpackedFloat.unpackSign, packComponents, BitVec.getLsbD_append, BitVec.getLsbD_eq_getElem,
    BitVec.getElem_append]

theorem ofBitVec_toBitVec (sign : Sign) : Sign.ofBitVec sign.toBitVec = sign := by
  cases sign <;> rfl

/-- A finite number with 53 bits and an exponent in range survives being packed. -/
theorem unpack_pack (sign : Sign) {mantissa : Nat} {exponent : Int} (positive : 0 < mantissa)
    (lower : 2 ^ 52 ≤ mantissa) (upper : mantissa < 2 ^ 53) (least : -1074 ≤ exponent) (most : exponent ≤ 971) :
    UnpackedFloat.unpack .binary64 (UnpackedFloat.pack .binary64 (.finite sign mantissa exponent positive)) =
      .finite sign mantissa exponent positive := by
  have log : mantissa.log2 = 52 := (Nat.log2_eq_iff (by omega)).mpr ⟨lower, upper⟩
  have bias : (Format.binary64.exponentBias : Int) = 1023 := rfl
  have width : (Format.binary64.mantissaBitsWithoutImplicit : Int) = 52 := rfl
  have sum : exponent + 1023 + 52 = exponent + 1075 := by omega
  have packed : UnpackedFloat.pack .binary64 (.finite sign mantissa exponent positive) =
      packComponents .binary64 sign (BitVec.ofNat 11 (exponent + 1075).toNat) (BitVec.ofNat 52 mantissa) := by
    simp only [UnpackedFloat.pack, log, bias, width, sum]
    rw [if_neg (by omega)]
    exact if_pos rfl
  have field : (BitVec.ofNat 11 (exponent + 1075).toNat).toNat = (exponent + 1075).toNat := by
    rw [BitVec.toNat_ofNat]
    exact Nat.mod_eq_of_lt (by omega)
  have last : BitVec.ofNat 11 (exponent + 1075).toNat ≠ -1#11 := fun same => by
    have := field.symm.trans (congrArg BitVec.toNat same)
    rw [show (-1#11 : BitVec 11).toNat = 2047 from rfl] at this
    omega
  have first : BitVec.ofNat 11 (exponent + 1075).toNat ≠ 0#11 := fun same => by
    have := field.symm.trans (congrArg BitVec.toNat same)
    rw [show (0#11 : BitVec 11).toNat = 0 from rfl] at this
    omega
  have whole : (1#1 ++ BitVec.ofNat 52 mantissa).toNat = mantissa := by
    rw [toNat_one_append, BitVec.toNat_ofNat]
    omega
  have same : ((exponent + 1075).toNat : Int) - (1023 + 52) = exponent := by omega
  rw [packed, UnpackedFloat.unpack]
  simp only [UnpackedFloat.unpackMantissa_packComponents, UnpackedFloat.unpackExponent_packComponents,
    unpackSign_packComponents, ofBitVec_toBitVec, if_neg last, if_neg first, whole, field, bias, width, same]

/-- The exponent of a finite number is not the one that marks the others. -/
theorem exponent_of_finite {bits : BitVec 64} {sign : Sign} {mantissa : Nat} {exponent : Int}
    {positive : 0 < mantissa}
    (unpacked : UnpackedFloat.unpack .binary64 bits = .finite sign mantissa exponent positive) :
    bits.toNat / 2 ^ 52 % 2 ^ 11 ≠ 2047 := by
  intro last
  rw [← toNat_unpackExponent] at last
  rw [UnpackedFloat.unpack, if_pos (BitVec.eq_of_toNat_eq last)] at unpacked
  split at unpacked <;> cases unpacked

namespace Double

/-- What a double is, by its exact value. -/
theorem kind_of_unpack {number : Float} {sign : Sign} {mantissa : Nat} {exponent : Int} {positive : 0 < mantissa}
    (unpacked : number.toModel.unpack = .finite sign mantissa exponent positive) :
    kind number = .finite ⟨sign == .negative, mantissa, exponent⟩ := by
  obtain ⟨⟨bits, valid⟩⟩ := number
  have unpacked : UnpackedFloat.unpack .binary64 bits.toBitVec = .finite sign mantissa exponent positive := unpacked
  have decoded := decoded_unpack bits.toBitVec
  have other := exponent_of_finite unpacked
  rw [unpacked] at decoded
  have signed : (bits.toBitVec.toNat / 2 ^ 63 == 1) =
      (Sign.ofBitVec (@UnpackedFloat.unpackSign .binary64 bits.toBitVec) == .negative) := by
    rw [← toNat_unpackSign]
    generalize UnpackedFloat.unpackSign _ = bit
    revert bit
    decide
  have read : kind ⟨⟨bits, valid⟩⟩ = (if bits.toBitVec.toNat / 2 ^ 52 % 2 ^ 11 = 0 then
      .finite ⟨bits.toBitVec.toNat / 2 ^ 63 == 1, bits.toBitVec.toNat % 2 ^ 52, -1074⟩
    else .finite ⟨bits.toBitVec.toNat / 2 ^ 63 == 1, bits.toBitVec.toNat % 2 ^ 52 + 2 ^ 52,
      (bits.toBitVec.toNat / 2 ^ 52 % 2 ^ 11 : Nat) - 1075⟩) := if_neg other
  rw [read, signed]
  generalize same : UnpackedFloat.finite sign mantissa exponent positive = value at decoded
  cases decoded with
  | subnormal first _ =>
      cases same
      rw [if_pos first]
  | normal between _ =>
      injection same with signs mantissas exponents
      rw [if_neg (Nat.ne_of_gt between), signs, mantissas, exponents, Nat.add_comm]
  | _ => cases same

theorem unpack_half : (0.5 : Float).toModel.unpack = .finite .positive (2 ^ 52) (-53) (by decide) := by rfl

theorem unpack_proper {bits : BitVec 64} (ordinary : bits.toNat / 2 ^ 52 % 2 ^ 11 ≠ 2047) :
    UnpackedFloat.unpack .binary64 bits ≠ .notANumber := by
  have other : @UnpackedFloat.unpackExponent .binary64 bits ≠ -1#_ := fun same => ordinary <| by
    rw [← toNat_unpackExponent, same]
    rfl
  rw [UnpackedFloat.unpack, if_neg other]
  split
  · split <;> nofun
  · nofun

/-- The exact value of a number that is given by its exponent field and its bits with the leading one. -/
theorem unpack_ofMagnitude (negative : Bool) (field : Nat) {mantissa : Nat} (lower : 2 ^ 52 ≤ mantissa)
    (upper : mantissa < 2 ^ 53) (small : field ≤ 2045) : ∃ positive,
      (ofMagnitude negative (field * 2 ^ 52 + mantissa)).toModel.unpack =
        .finite (signOf negative) mantissa (field - 1074) positive := by
  have positive : 0 < mantissa := by omega
  refine ⟨positive, ?_⟩
  generalize whole : UInt64.ofNat (field * 2 ^ 52 + mantissa + if negative then twoTo 63 else 0) = bits
  have number : bits.toBitVec.toNat = field * 2 ^ 52 + mantissa + if negative then 2 ^ 63 else 0 := by
    have inside : (field * 2 ^ 52 + mantissa + if negative then 2 ^ 63 else 0) < 2 ^ 64 := by
      split <;> omega
    rw [← whole]
    exact (UInt64.toNat_ofNat').trans (Nat.mod_eq_of_lt inside)
  have exponent : bits.toBitVec.toNat / 2 ^ 52 % 2 ^ 11 = field + 1 := by
    rw [number]
    split <;> omega
  have fraction : bits.toBitVec.toNat % 2 ^ 52 = mantissa - 2 ^ 52 := by
    rw [number]
    split <;> omega
  have signed : Sign.ofBitVec (@UnpackedFloat.unpackSign .binary64 bits.toBitVec) = signOf negative := by
    have bit := toNat_unpackSign bits.toBitVec
    rw [number] at bit
    generalize UnpackedFloat.unpackSign _ = read at bit
    cases negative with
    | false =>
      have : read = 0#1 := BitVec.eq_of_toNat_eq (by rw [bit]; simp; omega)
      rw [this]; rfl
    | true =>
      have : read = 1#1 := BitVec.eq_of_toNat_eq (by rw [bit]; simp; omega)
      rw [this]; rfl
  have decoded := decoded_unpack bits.toBitVec
  have ordinary : bits.toBitVec.toNat / 2 ^ 52 % 2 ^ 11 ≠ 2047 := by omega
  have proper := unpack_proper ordinary
  rw [exponent, fraction, signed] at decoded
  have unpacked : UnpackedFloat.unpack .binary64 bits.toBitVec =
      .finite (signOf negative) mantissa (field - 1074) positive := by
    generalize UnpackedFloat.unpack .binary64 bits.toBitVec = value at *
    cases decoded with
    | infinity last _ => omega
    | notANumber => exact absurd rfl proper
    | zero first _ => omega
    | subnormal first _ => omega
    | normal between _ =>
        rw [UnpackedFloat.finite.injEq]
        exact ⟨rfl, by omega, by push_cast; omega⟩
  have packed : (ofMagnitude negative (field * 2 ^ 52 + mantissa)).toModel.unpack = UnpackedFloat.unpack .binary64
      (UnpackedFloat.pack .binary64 (UnpackedFloat.unpack .binary64 bits.toBitVec)) := by
    rw [ofMagnitude, whole]
    rfl
  rw [packed, unpacked]
  exact unpack_pack _ positive lower upper (by omega) (by omega)

end Double

end Formula
