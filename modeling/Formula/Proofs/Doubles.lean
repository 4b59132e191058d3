import Mathlib
import Formula.Proofs.Merging

/-!
Doubles that compare equal are one double, but for the two zeros: the sign, the exponent and the fraction of
a double can be read off its exact value, and they are all its bits.
-/

namespace Formula

open Float.Model (UnpackedFloat)
open Float.Model.UnpackedFloat (Sign)

/-- How the fields of a double, as numbers, determine its exact value. -/
inductive Decoded (sign : Sign) (exponent fraction : Nat) : UnpackedFloat → Prop
  | infinity (last : exponent = 2047) (none : fraction = 0) : Decoded sign exponent fraction (.infinity sign)
  | notANumber : Decoded sign exponent fraction .notANumber
  | zero (first : exponent = 0) (none : fraction = 0) : Decoded sign exponent fraction (.zero sign)
  | subnormal (first : exponent = 0) (positive : 0 < fraction) :
      Decoded sign exponent fraction (.finite sign fraction (-1074) positive)
  | normal (between : 0 < exponent) (positive : 0 < 2 ^ 52 + fraction) :
      Decoded sign exponent fraction (.finite sign (2 ^ 52 + fraction) (exponent - 1075) positive)

/-- The fields can be read off the exact value of a number. -/
theorem Decoded.unique {sign other : Sign} {exponent fraction exponent' fraction' : Nat} {value : UnpackedFloat}
    (one : Decoded sign exponent fraction value) (two : Decoded other exponent' fraction' value)
    (proper : value ≠ .notANumber) (small : fraction < 2 ^ 52) (small' : fraction' < 2 ^ 52) :
    sign = other ∧ exponent = exponent' ∧ fraction = fraction' := by
  cases one with
  | infinity last none =>
      cases two with
      | infinity last' none' => exact ⟨rfl, by omega, by omega⟩
  | notANumber => exact absurd rfl proper
  | zero first none =>
      cases two with
      | zero first' none' => exact ⟨rfl, by omega, by omega⟩
  | subnormal first positive =>
      generalize same : UnpackedFloat.finite sign fraction (-1074) positive = value at two
      cases two with
      | subnormal first' positive' =>
          cases same
          exact ⟨rfl, by omega, rfl⟩
      | normal between positive' =>
          injection same
          omega
      | _ => cases same
  | normal between positive =>
      generalize same : UnpackedFloat.finite sign (2 ^ 52 + fraction) (exponent - 1075) positive = value at two
      cases two with
      | subnormal first' positive' =>
          injection same
          omega
      | normal between' positive' =>
          injection same with signs mantissas exponents
          exact ⟨signs, by omega, by omega⟩
      | _ => cases same

section

variable (bits : BitVec 64)

theorem toNat_unpackMantissa :
    (@UnpackedFloat.unpackMantissa .binary64 bits).toNat = bits.toNat % 2 ^ 52 := by
  simp [UnpackedFloat.unpackMantissa, Float.Model.Format.binary64]

theorem toNat_unpackExponent :
    (@UnpackedFloat.unpackExponent .binary64 bits).toNat = bits.toNat / 2 ^ 52 % 2 ^ 11 := by
  simp [UnpackedFloat.unpackExponent, Float.Model.Format.binary64, Nat.shiftRight_eq_div_pow]

theorem toNat_unpackSign : (@UnpackedFloat.unpackSign .binary64 bits).toNat = bits.toNat / 2 ^ 63 := by
  have small : bits.toNat < 2 ^ 64 := bits.isLt
  have single : bits.toNat / 2 ^ 63 % 2 = bits.toNat / 2 ^ 63 := by omega
  simpa [UnpackedFloat.unpackSign, Float.Model.Format.binary64, Nat.shiftRight_eq_div_pow] using single

theorem toNat_one_append (fraction : BitVec 52) : (1#1 ++ fraction).toNat = 2 ^ 52 + fraction.toNat := by
  have small : fraction.toNat < 2 ^ 52 := fraction.isLt
  have one : (1#1).toNat = 1 := rfl
  rw [BitVec.toNat_append, Nat.shiftLeft_eq, Nat.mul_comm, ← Nat.two_pow_add_eq_or_of_lt small, one, Nat.mul_one]

/-- The exact value of a double is decoded from its fields. -/
theorem decoded_unpack :
    Decoded (Sign.ofBitVec (@UnpackedFloat.unpackSign .binary64 bits)) (bits.toNat / 2 ^ 52 % 2 ^ 11)
      (bits.toNat % 2 ^ 52) (UnpackedFloat.unpack .binary64 bits) := by
  have bias : (Float.Model.Format.binary64.exponentBias : Int) +
      Float.Model.Format.binary64.mantissaBitsWithoutImplicit = 1075 := rfl
  rw [← toNat_unpackMantissa, ← toNat_unpackExponent, UnpackedFloat.unpack]
  simp only [bias]
  split
  · rename_i last
    split
    · rename_i none
      exact .infinity (congrArg BitVec.toNat last) (congrArg BitVec.toNat none)
    · exact .notANumber
  · split
    · rename_i first
      have none : (@UnpackedFloat.unpackExponent .binary64 bits).toNat = 0 := congrArg BitVec.toNat first
      split
      · rename_i none'
        exact .zero none (congrArg BitVec.toNat none')
      · have exponent : ((@UnpackedFloat.unpackExponent .binary64 bits).toNat : Int) - 1075 + 1 = -1074 := by
          rw [none]
          rfl
        simp only [exponent]
        exact .subnormal none _
    · rename_i between
      have mantissa := toNat_one_append (@UnpackedFloat.unpackMantissa .binary64 bits)
      simp only [mantissa]
      exact .normal (Nat.pos_of_ne_zero fun none => between (BitVec.eq_of_toNat_eq none)) _

end

theorem sign_injective {one other : BitVec 1} (same : Sign.ofBitVec one = Sign.ofBitVec other) : one = other := by
  unfold Sign.ofBitVec at same
  split at same <;> split at same
  · rename_i first second
    rw [first, second]
  · cases same
  · cases same
  · bv_omega

/-- Exact values that compare equal are one, but for the two zeros. -/
theorem eq_of_compare_unpacked {left right : UnpackedFloat} (equal : left.compare right = some .eq) :
    (left = right ∧ left ≠ .notANumber) ∨ ∃ sign other, left = .zero sign ∧ right = .zero other := by
  cases left with
  | notANumber => cases equal
  | infinity sign =>
      cases right with
      | infinity other => cases sign <;> cases other <;> first | exact .inl ⟨rfl, nofun⟩ | cases equal
      | _ => cases sign <;> cases equal
  | zero sign =>
      cases right with
      | zero other => exact .inr ⟨sign, other, rfl, rfl⟩
      | infinity other => cases other <;> cases equal
      | finite other mantissa exponent positive => cases other <;> cases equal
      | notANumber => cases equal
  | finite sign mantissa exponent positive =>
      cases right with
      | infinity other => cases other <;> cases equal
      | zero other => cases sign <;> cases equal
      | notANumber => cases equal
      | finite other mantissa' exponent' positive' =>
          have parts : sign = other ∧ exponent = exponent' ∧ mantissa = mantissa' := by
            cases sign <;> cases other <;> dsimp only [UnpackedFloat.compare] at equal
            · simpa [Ordering.then_eq_eq] using equal
            · cases equal
            · cases equal
            · simpa [Ordering.then_eq_eq] using equal
          obtain ⟨rfl, rfl, rfl⟩ := parts
          exact .inl ⟨rfl, nofun⟩

namespace Double

/-- The zero of either sign. -/
def zero (negative : Bool) : Float := ofMagnitude negative 0

variable {left right : Float}

theorem unpack_zero (negative : Bool) :
    (zero negative).toModel.unpack = .zero (if negative then .negative else .positive) := by
  cases negative <;> rfl

/-- The exact value of a number determines the number. -/
theorem eq_of_unpack (same : left.toModel.unpack = right.toModel.unpack)
    (proper : left.toModel.unpack ≠ .notANumber) : left = right := by
  obtain ⟨⟨bits, valid⟩⟩ := left
  obtain ⟨⟨bits', valid'⟩⟩ := right
  have one := decoded_unpack bits.toBitVec
  have two := decoded_unpack bits'.toBitVec
  rw [show UnpackedFloat.unpack .binary64 bits'.toBitVec = UnpackedFloat.unpack .binary64 bits.toBitVec from
    same.symm] at two
  obtain ⟨signs, exponents, fractions⟩ := one.unique two proper (Nat.mod_lt _ (by decide)) (Nat.mod_lt _ (by decide))
  have signs := congrArg BitVec.toNat (sign_injective signs)
  rw [toNat_unpackSign, toNat_unpackSign] at signs
  have numbers : bits.toBitVec.toNat = bits'.toBitVec.toNat := by omega
  obtain rfl : bits = bits' := UInt64.toNat.inj numbers
  rfl

theorem eq_zero_of_unpack {sign : Sign} (zeroed : left.toModel.unpack = .zero sign) :
    ∃ negative, left = zero negative := by
  cases sign with
  | negative => exact ⟨true, eq_of_unpack (zeroed.trans (unpack_zero true).symm) (by rw [zeroed]; nofun)⟩
  | positive => exact ⟨false, eq_of_unpack (zeroed.trans (unpack_zero false).symm) (by rw [zeroed]; nofun)⟩

/-- Numbers that compare equal are one, but for the two zeros. -/
theorem eq_of_compare (equal : Numeric.compare (.float left) (.float right) = some .eq) :
    left = right ∨ ∃ negative other, left = zero negative ∧ right = zero other := by
  rw [Numeric.compare_float] at equal
  rcases eq_of_compare_unpacked equal with ⟨same, proper⟩ | ⟨sign, other, zeroed, zeroedOther⟩
  · exact .inl (eq_of_unpack same proper)
  · obtain ⟨negative, rfl⟩ := eq_zero_of_unpack zeroed
    obtain ⟨negativeOther, rfl⟩ := eq_zero_of_unpack zeroedOther
    exact .inr ⟨negative, negativeOther, rfl, rfl⟩

end Double

end Formula
