import Formula.Value.Written
import Formula.Proofs.Digits
import Formula.Proofs.Doubles
import Formula.Proofs.Numerals
import Formula.Proofs.Spacing

/-!
Numbers as they are written out: a number in base ten is read back where it ends, and the text of a double that is
not negative is such a number, with the value of the shortest digits.
-/

namespace Formula

open Float.Model (UnpackedFloat)
open Float.Model.UnpackedFloat (Sign)

/-- A text before which a number ends. -/
structure Numeral.EndsBefore (numeral : Numeral) (tail : Text) : Prop where
  noDigit : ∀ point ∈ tail.head?, Text.isDigit point = false
  noExponent : numeral.exponent = none → Reading.exponent? tail = none
  noPoint : numeral.fraction = none → numeral.exponent = none → tail.head? ≠ some '.'.toNat

namespace Reading

variable {tail : Text}

theorem takeWhile_digits {digits : Text} (plain : ∀ point ∈ digits, Text.isDigit point = true)
    (stops : ∀ point ∈ tail.head?, Text.isDigit point = false) :
    (digits ++ tail).takeWhile Text.isDigit = digits ∧ (digits ++ tail).dropWhile Text.isDigit = tail := by
  rw [List.takeWhile_append_of_pos plain, List.dropWhile_append_of_pos plain]
  cases tail with
  | nil => exact ⟨List.append_nil _, rfl⟩
  | cons point rest =>
      have stops : ¬Text.isDigit point = true := by rw [stops point rfl]; decide
      rw [List.takeWhile_cons_of_neg stops, List.dropWhile_cons_of_neg stops]
      exact ⟨List.append_nil _, rfl⟩

theorem splitSign_sign {sign : Option CodePoint} (signed : ∀ point ∈ sign, point = '+'.toNat ∨ point = '-'.toNat)
    {digits : Text} (plain : ∀ point ∈ digits, Text.isDigit point = true) (filled : digits ≠ []) (tail : Text) :
    (splitSign (sign.toList ++ (digits ++ tail))).1 = decide (sign = some '-'.toNat) := by
  cases sign with
  | none =>
      obtain ⟨first, others, rfl⟩ := List.exists_cons_of_ne_nil filled
      have digit := plain first List.mem_cons_self
      have minus : first ≠ '-'.toNat := by rintro rfl; cases digit
      have plus : first ≠ '+'.toNat := by rintro rfl; cases digit
      simp only [Option.toList_none, List.nil_append, List.cons_append, splitSign, if_neg minus, if_neg plus]
      rfl
  | some point => rcases signed point rfl with rfl | rfl <;> rfl

/-- An exponent is read back before anything but another digit. -/
theorem exponent?_exact (exponent : Numeral.Exponent) (stops : ∀ point ∈ tail.head?, Text.isDigit point = false) :
    exponent? (exponent.spelling ++ tail) = some (exponent.value, tail) := by
  have marked : (exponent.mark = 'e'.toNat || exponent.mark = 'E'.toNat) = true := by simpa using exponent.marked
  have digits := splitSign_of_spelled exponent.signed exponent.plain exponent.filled tail
  have negative := splitSign_sign exponent.signed exponent.plain exponent.filled tail
  obtain ⟨taken, left⟩ := takeWhile_digits exponent.plain stops
  have filled : exponent.digits.isEmpty = false := by simp [exponent.filled]
  simp only [Numeral.Exponent.spelling, List.cons_append, List.append_assoc, exponent?, marked, if_true, digits,
    negative, taken, left, filled, Bool.false_eq_true, if_false, Numeral.Exponent.value, decimalValue_eq,
    decide_eq_true_iff]

/-- A number is read back as it is written, before a text that does not go on with it. -/
theorem decimal?_exact (numeral : Numeral) (ends : numeral.EndsBefore tail) :
    decimal? (numeral.spelling ++ tail) = some (numeral.decimal, tail) ∧
      (numeral.spelling ++ tail).takeWhile Text.isDigit = numeral.whole := by
  obtain ⟨whole, fraction, exponent, plain, filled⟩ := numeral
  obtain ⟨noDigit, noExponent, noPoint⟩ := ends
  obtain ⟨digits, others⟩ := List.forall_mem_append.mp plain
  dsimp only at noExponent noPoint digits others filled
  -- What comes after the digits begins with none, and the exponent is all that is read of it.
  have stops : ∀ point ∈ (exponent.elim [] Numeral.Exponent.spelling ++ tail).head?, Text.isDigit point = false := by
    cases exponent with
    | none => exact noDigit
    | some exponent =>
        rintro _ ⟨⟩
        rcases exponent.marked with mark | mark <;> rw [mark] <;> rfl
  have concludes (fraction : Text) : concluded whole fraction (exponent.elim [] Numeral.Exponent.spelling ++ tail) =
      (⟨(whole ++ fraction).decimal, exponent.elim 0 Numeral.Exponent.value - fraction.length⟩, tail) := by
    unfold concluded
    cases exponent with
    | none => simp [noExponent rfl, decimalValue_eq]
    | some exponent => simp [exponent?_exact exponent noDigit, decimalValue_eq]
  cases fraction with
  | some fraction =>
      have begins : ∀ point ∈ ('.'.toNat :: (fraction ++ (exponent.elim [] Numeral.Exponent.spelling ++ tail))).head?,
          Text.isDigit point = false := by
        rintro _ ⟨⟩
        rfl
      obtain ⟨taken, left⟩ := takeWhile_digits digits begins
      obtain ⟨takenFraction, leftFraction⟩ := takeWhile_digits others stops
      simp only [Numeral.spelling, Option.elim_some, List.append_assoc, List.cons_append]
      rw [Option.getD_some] at takenFraction leftFraction filled
      refine ⟨?_, taken⟩
      rw [decimal?_point left, taken, takenFraction, leftFraction, concludes, if_neg (by simp_all)]
      rfl
  | none =>
      obtain ⟨taken, left⟩ := takeWhile_digits digits stops
      have noPoint : (exponent.elim [] Numeral.Exponent.spelling ++ tail).head? ≠ some '.'.toNat := by
        cases exponent with
        | none => exact noPoint rfl rfl
        | some exponent =>
            intro point
            rcases exponent.marked with mark | mark <;> cases mark.symm.trans (Option.some.inj point)
      simp only [Numeral.spelling, Option.elim_none, List.nil_append, List.append_assoc]
      refine ⟨?_, taken⟩
      rw [decimal?_plain (by rwa [left]), taken, left, concludes, if_neg (by simp_all)]
      rfl

end Reading

namespace Numeral

variable {numeral : Numeral} {tail rest : Text} {first : CodePoint}

theorem spelling_length : numeral.whole.length = numeral.spelling.length ↔
    numeral.fraction = none ∧ numeral.exponent = none := by
  cases fraction : numeral.fraction <;> cases exponent : numeral.exponent <;>
    simp [spelling, fraction, exponent, Exponent.spelling]

/-- What a number is written with. -/
theorem mem_spelling {point : CodePoint} (member : point ∈ numeral.spelling) :
    Text.isDigit point = true ∨ point ∈ Text.ofString ".eE+-" := by
  obtain ⟨digits, others⟩ := List.forall_mem_append.mp numeral.plain
  rcases List.mem_append.mp member with among | member
  · exact .inl (digits point among)
  rcases List.mem_append.mp member with among | among
  · cases fraction : numeral.fraction with
    | none => simp [fraction] at among
    | some fractional =>
        rw [fraction, Option.elim_some] at among
        rw [fraction, Option.getD_some] at others
        rcases List.mem_cons.mp among with rfl | among
        · exact .inr (by decide)
        · exact .inl (others point among)
  · cases exponent : numeral.exponent with
    | none => simp [exponent] at among
    | some power =>
        rw [exponent, Option.elim_some] at among
        rcases List.mem_cons.mp among with rfl | among
        · exact .inr (by rcases power.marked with mark | mark <;> rw [mark] <;> decide)
        rcases List.mem_append.mp among with among | among
        · exact .inr (by rcases power.signed point (Option.mem_toList.mp among) with rfl | rfl <;> decide)
        · exact .inl (power.plain point among)

/-- No sign of a number announces another base, is a blank or opens a comment. -/
theorem plain_spelling {point : CodePoint} (member : point ∈ numeral.spelling) :
    Scan.radix? point = none ∧ Cursor.isBlank point = false ∧ point ≠ '/'.toNat := by
  rcases mem_spelling member with digit | sign
  · have other {sign : CodePoint} (noDigit : Text.isDigit sign = false) : point ≠ sign := by
      rintro rfl
      rw [noDigit] at digit
      cases digit
    refine ⟨?_, ?_, other rfl⟩
    · rw [Scan.radix?, if_neg (other rfl), if_neg (other rfl)]
    · simp only [Cursor.isBlank, Bool.or_eq_false_iff, beq_eq_false_iff_ne, and_assoc]
      exact ⟨other rfl, other rfl, other rfl, other rfl⟩
  · clear member
    revert point
    decide

theorem radixInteger?_none (written : numeral.spelling ++ tail = first :: rest)
    (unmarked : ∀ point ∈ tail.head?, Scan.radix? point = none) : Scan.radixInteger? first rest = none := by
  have next : ∀ point ∈ rest.head?, Scan.radix? point = none := by
    obtain ⟨begins, others, spelled⟩ := List.exists_cons_of_ne_nil numeral.spelling_ne_nil
    rw [spelled] at written
    obtain ⟨-, rfl⟩ := List.cons.inj written
    cases others with
    | nil => exact unmarked
    | cons second others =>
        rintro _ ⟨⟩
        exact (plain_spelling (spelled ▸ List.mem_cons_of_mem _ List.mem_cons_self)).1
  cases rest with
  | nil => simp [Scan.radixInteger?]
  | cons marker body => simp [Scan.radixInteger?, next marker rfl]

/-- A number before a text that does not go on with it is a token. -/
theorem token_exact {dialect : Dialect} (ends : numeral.EndsBefore tail)
    (unmarked : ∀ point ∈ tail.head?, Scan.radix? point = none) (written : numeral.spelling ++ tail = first :: rest) :
    Scan.token dialect first rest = .ok (.number numeral.value, numeral.spelling.length - 1) := by
  refine Scan.token_number (radixInteger?_none written unmarked) ?_
  obtain ⟨read, taken⟩ := Reading.decimal?_exact numeral ends
  have size : (numeral.spelling ++ tail).length - tail.length = numeral.spelling.length := by
    rw [List.length_append, Nat.add_sub_cancel]
  rw [written] at read taken size
  simp only [Scan.number?, read, Option.bind_eq_bind, Option.bind_some, size, taken, spelling_length]
  refine congrArg (fun value => some (Lexeme.number value, _)) ?_
  cases fraction : numeral.fraction <;> cases exponent : numeral.exponent <;> simp [value, fraction, exponent]

end Numeral

/-! The digits of a double as they are laid out. -/

namespace Text

theorem decimal_append (first second : Text) :
    (first ++ second).decimal = first.decimal * 10 ^ second.length + second.decimal := by
  rw [decimal, List.reverse_append, List.map_append, Nat.ofDigits_append, List.length_map, List.length_reverse,
    Nat.mul_comm, Nat.add_comm]
  rfl

theorem decimal_zeros (count : Nat) : (NumberLayout.zeros count).decimal = 0 := by
  induction count with
  | zero => rfl
  | succ count ih =>
      rw [NumberLayout.zeros, List.replicate_succ, ← List.singleton_append, decimal_append]
      exact (Nat.zero_mul _).symm ▸ (Nat.zero_add _).trans ih

theorem decimal_ofNat (number : Nat) : (ofNat number).decimal = number := by
  rw [← Reading.decimalValue_eq, Scan.decimalValue_ofNat]

theorem length_ofNat (number : Nat) : (ofNat number).length = Decimal.digitCount number := List.length_map _

theorem ofNat_ne_nil (number : Nat) : ofNat number ≠ [] := by
  rw [← List.length_pos_iff, length_ofNat]
  exact Nat.length_toDigits_pos

theorem isDigit_zeros (count : Nat) : ∀ point ∈ NumberLayout.zeros count, isDigit point = true := by
  intro point member
  rw [List.eq_of_mem_replicate member]
  rfl

end Text

namespace NumberLayout

/-- An exponent is written with its sign and at least so many digits. -/
theorem writeExponent_spelled (least : Nat) (leading : Int) : ∃ exponent : Numeral.Exponent,
    exponent.spelling = writeExponent least leading ∧ exponent.value = leading := by
  have digits : ∀ point ∈ zeros (least - (Text.ofNat leading.natAbs).length) ++ Text.ofNat leading.natAbs,
      Text.isDigit point = true :=
    List.forall_mem_append.mpr ⟨Text.isDigit_zeros _, fun _ => Scan.isDigit_ofNat leading.natAbs⟩
  have size : (zeros (least - (Text.ofNat leading.natAbs).length) ++ Text.ofNat leading.natAbs).decimal =
      leading.natAbs := by
    rw [Text.decimal_append, Text.decimal_zeros, Text.decimal_ofNat, Nat.zero_mul, Nat.zero_add]
  refine ⟨⟨'e'.toNat, some (if leading < 0 then '-'.toNat else '+'.toNat), _, .inl rfl, ?_, digits, ?_⟩, rfl, ?_⟩
  · rintro _ ⟨⟩
    split
    · exact .inr rfl
    · exact .inl rfl
  · simp [Text.ofNat_ne_nil]
  · simp only [Numeral.Exponent.value, size, Option.some.injEq]
    split_ifs with negative
    · omega
    · contradiction
    · contradiction
    · omega
variable {figures : Text} (digits : ∀ point ∈ figures, Text.isDigit point = true) (filled : figures ≠ [])
  (exponent : Int)

include digits filled

/-- Figures with a point among them or beside them. -/
theorem writeFixed_spelled : ∃ numeral : Numeral,
    numeral.spelling = writeFixed plain figures (exponent + figures.length - 1) ∧ numeral.fraction ≠ none ∧
      numeral.decimal.toRat = figures.decimal * 10 ^ exponent := by
  have some : 0 < figures.length := List.length_pos_iff.mpr filled
  unfold writeFixed
  dsimp only
  split_ifs with small short
  · generalize count : (-(exponent + figures.length - 1) - 1).toNat = zeroCount
    refine ⟨⟨Text.ofString "0", .some (zeros zeroCount ++ figures), none, ?_, List.cons_ne_nil _ _⟩, ?_,
      Option.some_ne_none _, ?_⟩
    · exact List.forall_mem_append.mpr
        ⟨by decide, List.forall_mem_append.mpr ⟨Text.isDigit_zeros zeroCount, digits⟩⟩
    · simp [Numeral.spelling, Text.ofString]
    · have place : 0 - ((zeros zeroCount ++ figures).length : Int) = exponent := by
        rw [List.length_append, zeros, List.length_replicate]
        omega
      have value : (Text.ofString "0" ++ (zeros zeroCount ++ figures)).decimal = figures.decimal := by
        rw [Text.decimal_append, Text.decimal_append, Text.decimal_zeros]
        simp [Text.decimal, Text.ofString]
      simp only [Numeral.decimal, Option.getD_some, Option.elim_none, place, value]
      rfl
  · generalize count : (exponent + figures.length - 1).toNat + 1 - figures.length = zeroCount
    have power : exponent = zeroCount := by omega
    refine ⟨⟨figures ++ zeros zeroCount, .some (Text.ofString "0"), none, ?_, ?_⟩, ?_, Option.some_ne_none _, ?_⟩
    · exact List.forall_mem_append.mpr
        ⟨List.forall_mem_append.mpr ⟨digits, Text.isDigit_zeros zeroCount⟩, by decide⟩
    · simp [filled]
    · simp [Numeral.spelling, plain, Text.ofString]
    · have value : (figures ++ zeros zeroCount ++ Text.ofString "0").decimal =
          figures.decimal * 10 ^ zeroCount * 10 := by
        rw [Text.decimal_append, Text.decimal_append, Text.decimal_zeros, zeros, List.length_replicate]
        simp [Text.decimal, Text.ofString]
      simp only [Numeral.decimal, Option.getD_some, Option.elim_none, value, Decimal.toRat]
      rw [power, zpow_natCast]
      push_cast
      field_simp
      simp [Text.ofString]
  · generalize count : (exponent + figures.length - 1).toNat + 1 = before
    refine ⟨⟨figures.take before, .some (figures.drop before), none, ?_, ?_⟩, ?_, Option.some_ne_none _, ?_⟩
    · rwa [Option.getD_some, List.take_append_drop]
    · rwa [Option.getD_some, List.take_append_drop]
    · simp [Numeral.spelling]
    · have place : 0 - ((figures.drop before).length : Int) = exponent := by
        rw [List.length_drop]
        omega
      simp only [Numeral.decimal, Option.getD_some, Option.elim_none, place, List.take_append_drop]
      rfl

/-- Figures with the point after the first and an exponent. -/
theorem writeScientific_spelled (least : Nat) : ∃ numeral : Numeral,
    numeral.spelling = writeScientific least figures (exponent + figures.length - 1) ∧ numeral.exponent ≠ none ∧
      numeral.decimal.toRat = figures.decimal * 10 ^ exponent := by
  obtain ⟨power, spelled, value⟩ := writeExponent_spelled least (exponent + figures.length - 1)
  unfold writeScientific
  rw [← spelled]
  rcases figures with _ | ⟨first, _ | ⟨second, others⟩⟩
  · exact absurd rfl filled
  · refine ⟨⟨[first], none, some power, by simpa using digits, by simp⟩, rfl, Option.some_ne_none _, ?_⟩
    simp [Numeral.decimal, Decimal.toRat, value]
  · refine ⟨⟨[first], some (second :: others), some power, digits, List.cons_ne_nil _ _⟩, ?_, Option.some_ne_none _, ?_⟩
    · simp [Numeral.spelling]
    · have place : exponent + (first :: second :: others).length - 1 - (second :: others).length = exponent := by
        simp only [List.length_cons]
        omega
      simp only [Numeral.decimal, Decimal.toRat, Option.elim_some, Option.getD_some, value, place]
      rfl

end NumberLayout

/-- A double without the sign is not below zero. -/
theorem Double.not_lt_zero {number : Float} {value : Dyadic} (known : kind number = .finite value)
    (positive : value.negative = false) : ¬number < 0.0 := by
  have less : number < 0.0 ↔ number.toModel.unpack.compare (.zero .positive) = some .lt :=
    decide_eq_true_iff.trans beq_iff_eq
  have unsigned : (number.toBits.toNat / 2 ^ 63 == 1) = false := by
    simp only [kind] at known
    split_ifs at known <;> cases known <;> exact positive
  rw [less]
  obtain ⟨⟨bits, valid⟩⟩ := number
  have decoded := decoded_unpack bits.toBitVec
  have signed (bit : BitVec 1) : (bit.toNat == 1) = (Sign.ofBitVec bit == .negative) := by
    revert bit
    decide
  have plus : (Sign.ofBitVec (@UnpackedFloat.unpackSign .binary64 bits.toBitVec) == .negative) = false := by
    rw [← signed, toNat_unpackSign]
    exact unsigned
  change ¬(UnpackedFloat.unpack .binary64 bits.toBitVec).compare (.zero .positive) = some .lt
  generalize UnpackedFloat.unpack .binary64 bits.toBitVec = unpacked at decoded
  generalize Sign.ofBitVec _ = sign at decoded plus
  cases sign with
  | negative => cases plus
  | positive => cases decoded <;> exact fun less => by cases less

/-- The text of a finite double that is not negative is a number in base ten that is read as this double. -/
theorem Double.written {number : Float} {value : Dyadic} (known : kind number = .finite value)
    (positive : value.negative = false) : ∃ numeral : Numeral,
    numeral.spelling = Text.ofFloat number ∧ numeral.value = .float number ∧
      (numeral.fraction ≠ none ∨ numeral.exponent ≠ none) := by
  have digits (point : CodePoint) (member : point ∈ Text.ofNat (Decimal.shortest value).digits) :
      Text.isDigit point = true := Scan.isDigit_ofNat _ member
  have filled := Text.ofNat_ne_nil (Decimal.shortest value).digits
  have leading : (Decimal.shortest value).leading = (Decimal.shortest value).exponent +
      (Text.ofNat (Decimal.shortest value).digits).length - 1 := by
    rw [Text.length_ofNat]
    rfl
  have read {numeral : Numeral} (same : numeral.decimal.toRat =
      (Text.ofNat (Decimal.shortest value).digits).decimal * 10 ^ (Decimal.shortest value).exponent)
      (broken : numeral.fraction ≠ none ∨ numeral.exponent ≠ none) : numeral.value = .float number := by
    rw [Text.decimal_ofNat] at same
    have nearest := toDouble_shortest known same
    rw [positive] at nearest
    cases fraction : numeral.fraction <;> cases exponent : numeral.exponent <;>
      simp_all [Numeral.value]
  simp only [Text.ofFloat, NumberLayout.write, known, positive, NumberLayout.signed, leading, Bool.false_eq_true, if_false]
  split_ifs with fixed
  · obtain ⟨numeral, spelled, point, same⟩ := NumberLayout.writeFixed_spelled digits filled
      (Decimal.shortest value).exponent
    exact ⟨numeral, spelled, read same (.inl point), .inl point⟩
  · obtain ⟨numeral, spelled, power, same⟩ := NumberLayout.writeScientific_spelled digits filled
      (Decimal.shortest value).exponent NumberLayout.plain.exponentDigits
    exact ⟨numeral, spelled, read same (.inr power), .inr power⟩

end Formula
