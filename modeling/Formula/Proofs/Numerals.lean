import Mathlib.Data.List.TakeWhile
import Mathlib.Data.Nat.Digits.Defs
import Formula.Proofs.Location

/-!
Numbers in a text. What is read is the longest number that stands there: digits in base sixteen or two after `0x`
or `0b`, else digits with at most one point and perhaps an exponent.
-/

namespace Formula

/-- A part with which a text begins, such that no other part of its kind is longer. -/
def Text.Longest {α : Type} (text : Text) (spelling : α → Text) (part : α) : Prop :=
  spelling part <+: text ∧ ∀ other, spelling other <+: text → (spelling other).length ≤ (spelling part).length

/-- An integer in base sixteen or two as it is written. -/
structure RadixNumeral where
  base : Nat
  marker : CodePoint
  digits : Text
  announced : (marker = 'x'.toNat ∧ base = 16) ∨ (marker = 'b'.toNat ∧ base = 2)
  plain : ∀ point ∈ digits, (Scan.radixDigit? base point).isSome = true
  filled : digits ≠ []

namespace RadixNumeral

def spelling (numeral : RadixNumeral) : Text := '0'.toNat :: numeral.marker :: numeral.digits

/-- The positional value of the digits. -/
def value (numeral : RadixNumeral) : Nat :=
  Nat.ofDigits numeral.base (numeral.digits.reverse.filterMap (Scan.radixDigit? numeral.base))

end RadixNumeral

/-- The exponent of a number as it is written. -/
structure Numeral.Exponent where
  mark : CodePoint
  sign : Option CodePoint
  digits : Text
  marked : mark = 'e'.toNat ∨ mark = 'E'.toNat
  signed : ∀ point ∈ sign, point = '+'.toNat ∨ point = '-'.toNat
  plain : ∀ point ∈ digits, Text.isDigit point = true
  filled : digits ≠ []

/-- The positional value of digits in base ten. -/
def Text.decimal (digits : Text) : Nat := Nat.ofDigits 10 (digits.reverse.map (· - '0'.toNat))

namespace Numeral.Exponent

def spelling (exponent : Exponent) : Text := exponent.mark :: (exponent.sign.toList ++ exponent.digits)

def value (exponent : Exponent) : Int :=
  if exponent.sign = some '-'.toNat then -(exponent.digits.decimal : Int) else exponent.digits.decimal

end Numeral.Exponent

/-- A number in base ten as it is written. There are digits before the point or after it. -/
structure Numeral where
  whole : Text
  /-- The digits after the point, if there is a point. -/
  fraction : Option Text
  exponent : Option Numeral.Exponent
  plain : ∀ point ∈ whole ++ fraction.getD [], Text.isDigit point = true
  filled : whole ++ fraction.getD [] ≠ []

namespace Numeral

def spelling (numeral : Numeral) : Text :=
  numeral.whole ++ (numeral.fraction.elim [] ('.'.toNat :: ·) ++ numeral.exponent.elim [] Exponent.spelling)

theorem spelling_ne_nil (numeral : Numeral) : numeral.spelling ≠ [] := by
  intro empty
  obtain ⟨whole, others⟩ := List.append_eq_nil_iff.mp empty
  cases fraction : numeral.fraction with
  | none => exact numeral.filled (by rw [whole, fraction]; rfl)
  | some digits =>
      rw [fraction] at others
      cases others

/-- The number that the digits, the place of the point and the exponent denote. -/
def decimal (numeral : Numeral) : Decimal :=
  ⟨(numeral.whole ++ numeral.fraction.getD []).decimal,
    numeral.exponent.elim 0 Exponent.value - (numeral.fraction.getD []).length⟩

/-- An integer if there is neither a point nor an exponent, else the double nearest to the number. -/
def value (numeral : Numeral) : Value :=
  match numeral.fraction, numeral.exponent with
  | none, none => .int numeral.decimal.digits
  | _, _ => .float (numeral.decimal.toDouble false)

end Numeral

namespace Reading

theorem digitsValue_eq_ofDigits (base : Nat) (digits : List Nat) :
    digitsValue base digits = Nat.ofDigits base digits.reverse := by
  rw [digitsValue, Nat.ofDigits_eq_foldr, List.foldr_reverse]
  congr 1
  funext value digit
  rw [Nat.mul_comm, Nat.add_comm]
  rfl

theorem decimalValue_eq (digits : Text) : decimalValue digits = digits.decimal := by
  rw [decimalValue, digitsValue_eq_ofDigits, Text.decimal, List.map_reverse]

variable {text after : Text}

theorem splitSign_spelled (text : Text) : ∃ sign : Option CodePoint,
    (∀ point ∈ sign, point = '+'.toNat ∨ point = '-'.toNat) ∧ text = sign.toList ++ (splitSign text).2 ∧
      ((splitSign text).1 = true ↔ sign = some '-'.toNat) := by
  cases text with
  | nil => exact ⟨none, nofun, rfl, by simp [splitSign]⟩
  | cons point rest =>
      by_cases minus : point = '-'.toNat
      · subst minus
        exact ⟨some '-'.toNat, by simp, rfl, by simp [splitSign]⟩
      · by_cases plus : point = '+'.toNat
        · subst plus
          exact ⟨some '+'.toNat, by simp, rfl, by simp [splitSign]⟩
        · refine ⟨none, nofun, ?_, ?_⟩ <;> simp only [splitSign, if_neg minus, if_neg plus]
          · rfl
          · exact iff_of_false nofun nofun

theorem splitSign_of_spelled {sign : Option CodePoint} (signed : ∀ point ∈ sign, point = '+'.toNat ∨ point = '-'.toNat)
    {digits : Text} (plain : ∀ point ∈ digits, Text.isDigit point = true) (filled : digits ≠ []) (tail : Text) :
    (splitSign (sign.toList ++ (digits ++ tail))).2 = digits ++ tail := by
  cases sign with
  | none =>
      obtain ⟨first, others, rfl⟩ := List.exists_cons_of_ne_nil filled
      have digit := plain first List.mem_cons_self
      have minus : first ≠ '-'.toNat := by rintro rfl; cases digit
      have plus : first ≠ '+'.toNat := by rintro rfl; cases digit
      simp only [Option.toList_none, List.nil_append, List.cons_append, splitSign, if_neg minus, if_neg plus]
  | some point =>
      rcases signed point rfl with rfl | rfl <;> rfl

/-- An exponent that is found is written there. -/
theorem exponent?_spelled {value : Int} (found : exponent? text = some (value, after)) :
    ∃ exponent : Numeral.Exponent, text = exponent.spelling ++ after ∧ exponent.value = value := by
  cases text with
  | nil => cases found
  | cons mark rest =>
      simp only [exponent?, Bool.or_eq_true, decide_eq_true_eq, List.isEmpty_iff] at found
      obtain ⟨sign, signed, split, negative⟩ := splitSign_spelled rest
      split at found
      · rename_i marked
        split at found
        · cases found
        · rename_i filled
          obtain ⟨rfl, rfl⟩ := Prod.mk.inj (Option.some.inj found)
          refine ⟨⟨mark, sign, _, marked, signed, fun _ => List.mem_takeWhile_imp, filled⟩, ?_, ?_⟩
          · rw [Numeral.Exponent.spelling, List.cons_append, List.append_assoc, List.takeWhile_append_dropWhile]
            exact congrArg _ split
          · simp only [Numeral.Exponent.value, ← negative, decimalValue_eq]
      · cases found

/-- Where an exponent is written, one is found that is at least as long. -/
theorem exponent?_of_spelled (exponent : Numeral.Exponent) (tail : Text) :
    ∃ value after, exponent? (exponent.spelling ++ tail) = some (value, after) ∧ after.length ≤ tail.length := by
  have marked : (exponent.mark = 'e'.toNat || exponent.mark = 'E'.toNat) = true := by simpa using exponent.marked
  have digits := splitSign_of_spelled exponent.signed exponent.plain exponent.filled tail
  have filled : ((exponent.digits ++ tail).takeWhile Text.isDigit).isEmpty = false := by
    rw [List.takeWhile_append_of_pos exponent.plain]
    simp [exponent.filled]
  simp only [Numeral.Exponent.spelling, List.cons_append, List.append_assoc, exponent?, marked, if_true, digits, filled,
    Bool.false_eq_true, if_false]
  refine ⟨_, _, rfl, ?_⟩
  rw [List.dropWhile_append_of_pos exponent.plain]
  exact (List.dropWhile_suffix _).length_le

/-- A number with its digits, and what comes after the exponent that may follow them. -/
def concluded (whole fraction rest : Text) : Decimal × Text :=
  let (exponent, after) := (exponent? rest).getD (0, rest)
  (⟨decimalValue (whole ++ fraction), exponent - fraction.length⟩, after)

theorem decimal?_point {rest : Text} (point : text.dropWhile Text.isDigit = '.'.toNat :: rest) :
    decimal? text =
      if text.takeWhile Text.isDigit = [] ∧ rest.takeWhile Text.isDigit = [] then none
      else some (concluded (text.takeWhile Text.isDigit) (rest.takeWhile Text.isDigit)
        (rest.dropWhile Text.isDigit)) := by
  simp [decimal?, point, concluded]

theorem decimal?_plain (noPoint : (text.dropWhile Text.isDigit).head? ≠ some '.'.toNat) :
    decimal? text =
      if text.takeWhile Text.isDigit = [] then none
      else some (concluded (text.takeWhile Text.isDigit) [] (text.dropWhile Text.isDigit)) := by
  unfold decimal?
  cases dropped : text.dropWhile Text.isDigit with
  | nil => simp [concluded]
  | cons point rest =>
      have other : point ≠ '.'.toNat := fun same => noPoint (by rw [dropped, same]; rfl)
      simp only [if_neg other]
      simp [concluded]

theorem concluded_length (whole fraction rest : Text) : (concluded whole fraction rest).2.length ≤ rest.length := by
  unfold concluded
  cases found : exponent? rest with
  | none => exact Nat.le_refl _
  | some result =>
      obtain ⟨exponent, same, -⟩ := exponent?_spelled found
      have length := congrArg List.length same
      rw [List.length_append] at length
      exact Nat.le_of_add_left_le (Nat.le_of_eq length.symm)

theorem concluded_spelled (whole fraction rest : Text) : ∃ exponent : Option Numeral.Exponent,
    rest = exponent.elim [] Numeral.Exponent.spelling ++ (concluded whole fraction rest).2 ∧
      (concluded whole fraction rest).1 =
        ⟨(whole ++ fraction).decimal, exponent.elim 0 Numeral.Exponent.value - fraction.length⟩ := by
  unfold concluded
  rw [decimalValue_eq]
  cases found : exponent? rest with
  | none => exact ⟨none, rfl, rfl⟩
  | some result =>
      obtain ⟨exponent, same, value⟩ := exponent?_spelled found
      exact ⟨some exponent, same, by simp [value]⟩

/-- A number that is found is written there, and its digits before the point are all that stand there. -/
theorem decimal?_spelled {number : Decimal} (found : decimal? text = some (number, after)) :
    ∃ numeral : Numeral, text = numeral.spelling ++ after ∧ numeral.decimal = number ∧
      numeral.whole = text.takeWhile Text.isDigit := by
  have split := List.takeWhile_append_dropWhile (p := Text.isDigit) (l := text)
  have digits (text : Text) : ∀ point ∈ text.takeWhile Text.isDigit, Text.isDigit point = true :=
    fun _ => List.mem_takeWhile_imp
  by_cases point : (text.dropWhile Text.isDigit).head? = some '.'.toNat
  · obtain ⟨rest, point⟩ := List.head?_eq_some_iff.mp point
    rw [decimal?_point point] at found
    split at found
    · cases found
    · rename_i filled
      have same := Option.some.inj found
      obtain ⟨exponent, ending, value⟩ := concluded_spelled (text.takeWhile Text.isDigit)
        (rest.takeWhile Text.isDigit) (rest.dropWhile Text.isDigit)
      rw [same] at ending value
      refine ⟨⟨_, some (rest.takeWhile Text.isDigit), exponent, List.forall_mem_append.mpr ⟨digits text, digits rest⟩,
        fun empty => filled (List.append_eq_nil_iff.mp empty)⟩, ?_, value.symm, rfl⟩
      simp only [Numeral.spelling, List.append_assoc, ← ending]
      rw [Option.elim_some, List.cons_append, List.takeWhile_append_dropWhile, ← point, split]
  · rw [decimal?_plain point] at found
    split at found
    · cases found
    · rename_i filled
      have same := Option.some.inj found
      obtain ⟨exponent, ending, value⟩ := concluded_spelled (text.takeWhile Text.isDigit) []
        (text.dropWhile Text.isDigit)
      rw [same] at ending value
      refine ⟨⟨_, none, exponent, List.forall_mem_append.mpr ⟨digits text, nofun⟩,
        fun empty => filled (List.append_eq_nil_iff.mp empty).1⟩, ?_, value.symm, rfl⟩
      simp only [Numeral.spelling, List.append_assoc, ← ending]
      exact split.symm

/-- An exponent does not go on with the digits before it. -/
theorem dropWhile_exponent (exponent : Numeral.Exponent) (tail : Text) :
    (exponent.spelling ++ tail).dropWhile Text.isDigit = exponent.spelling ++ tail := by
  have noDigit : ¬Text.isDigit exponent.mark = true := by
    rcases exponent.marked with mark | mark <;> rw [mark] <;> decide
  rw [Numeral.Exponent.spelling, List.cons_append, List.dropWhile_cons_of_neg noDigit]

theorem concluded_of_spelled (whole fraction : Text) (exponent : Option Numeral.Exponent) (tail : Text) :
    (concluded whole fraction
      ((exponent.elim [] Numeral.Exponent.spelling ++ tail).dropWhile Text.isDigit)).2.length ≤ tail.length := by
  cases exponent with
  | none => exact (concluded_length _ _ _).trans (List.dropWhile_suffix _).length_le
  | some exponent =>
      obtain ⟨value, after, found, shorter⟩ := exponent?_of_spelled exponent tail
      simpa [dropWhile_exponent, concluded, found] using shorter

/-- Where a number is written, one is found that is at least as long. -/
theorem decimal?_of_spelled (numeral : Numeral) (tail : Text) :
    ∃ found, decimal? (numeral.spelling ++ tail) = some found ∧ found.2.length ≤ tail.length := by
  obtain ⟨whole, fraction, exponent, plain, filled⟩ := numeral
  obtain ⟨digits, others⟩ := List.forall_mem_append.mp plain
  simp only [Numeral.spelling, List.append_assoc]
  cases fraction with
  | some fraction =>
      rw [Option.elim_some, List.cons_append]
      rw [Option.getD_some] at others filled
      rw [decimal?_point ((List.dropWhile_append_of_pos digits).trans (List.dropWhile_cons_of_neg (by decide))),
        List.takeWhile_append_of_pos digits, List.takeWhile_append_of_pos others, List.dropWhile_append_of_pos others,
        if_neg (by simp_all)]
      exact ⟨_, rfl, concluded_of_spelled _ _ _ _⟩
  | none =>
      rw [Option.elim_none, List.nil_append]
      have begun : (whole ++ (exponent.elim [] Numeral.Exponent.spelling ++ tail)).takeWhile Text.isDigit ≠ [] := by
        rw [List.takeWhile_append_of_pos digits]
        simp_all
      have dropped : (whole ++ (exponent.elim [] Numeral.Exponent.spelling ++ tail)).dropWhile Text.isDigit =
          (exponent.elim [] Numeral.Exponent.spelling ++ tail).dropWhile Text.isDigit :=
        List.dropWhile_append_of_pos digits
      by_cases point : ((exponent.elim [] Numeral.Exponent.spelling ++ tail).dropWhile Text.isDigit).head? =
          some '.'.toNat
      · -- The point comes after the number, which then has no exponent.
        obtain ⟨rest, point⟩ := List.head?_eq_some_iff.mp point
        rw [decimal?_point (dropped.trans point), if_neg fun empty => begun empty.1]
        refine ⟨_, rfl, (concluded_length _ _ _).trans ((List.dropWhile_suffix _).length_le.trans ?_)⟩
        cases exponent with
        | none =>
            have shorter := (List.dropWhile_suffix (l := tail) Text.isDigit).length_le
            rw [Option.elim_none, List.nil_append] at point
            rw [point, List.length_cons] at shorter
            exact Nat.le_of_succ_le shorter
        | some exponent =>
            rw [Option.elim_some, dropWhile_exponent] at point
            rcases exponent.marked with mark | mark <;> cases mark.symm.trans (List.cons.inj point).1
      · rw [decimal?_plain (by rwa [dropped]), if_neg begun, dropped]
        exact ⟨_, rfl, concluded_of_spelled _ _ _ _⟩

end Reading

namespace Scan

variable {first : CodePoint} {rest : Text} {found : Found}

theorem radix?_eq_some_iff {marker base : Nat} : radix? marker = some base ↔
    (marker = 'x'.toNat ∧ base = 16) ∨ (marker = 'b'.toNat ∧ base = 2) := by
  unfold radix?
  split
  · rename_i hexadecimal
    subst hexadecimal
    simp [eq_comm]
  · rename_i other
    split
    · rename_i binary
      subst binary
      simp [eq_comm]
    · rename_i neither
      exact iff_of_false nofun (by rintro (⟨marker, -⟩ | ⟨marker, -⟩) <;> contradiction)

/-- An integer that is found is written there. -/
theorem radixInteger?_spelled (came : radixInteger? first rest = some found) :
    ∃ numeral : RadixNumeral, numeral.spelling <+: first :: rest ∧
      found = (.number (.int numeral.value), numeral.spelling.length - 1) := by
  unfold radixInteger? at came
  split at came
  · rename_i zero
    subst zero
    cases rest with
    | nil => cases came
    | cons marker body =>
        obtain ⟨base, announced, came⟩ := Option.bind_eq_some_iff.mp came
        dsimp only at came
        split at came
        · cases came
        · rename_i filled
          refine ⟨⟨base, marker, _, radix?_eq_some_iff.mp announced, fun _ => List.mem_takeWhile_imp,
            fun empty => filled (List.isEmpty_iff.mpr empty)⟩, ?_, ?_⟩
          · exact List.prefix_cons_inj _ |>.mpr (List.prefix_cons_inj _ |>.mpr (List.takeWhile_prefix _))
          · rw [← Option.some.inj came, Reading.digitsValue_eq_ofDigits]
            simp [RadixNumeral.value, RadixNumeral.spelling]
  · cases came

/-- Where an integer in base sixteen or two is written, one is found that is at least as long. -/
theorem radixInteger?_of_spelled (numeral : RadixNumeral) (written : numeral.spelling <+: first :: rest) :
    ∃ found, radixInteger? first rest = some found ∧ numeral.spelling.length ≤ found.2 + 1 := by
  obtain ⟨tail, written⟩ := written
  obtain ⟨rfl, rfl⟩ := List.cons.inj written
  have announced : radix? numeral.marker = some numeral.base := radix?_eq_some_iff.mpr numeral.announced
  have digits : (numeral.digits ++ tail).takeWhile (fun point => (radixDigit? numeral.base point).isSome) =
      numeral.digits ++ tail.takeWhile fun point => (radixDigit? numeral.base point).isSome :=
    List.takeWhile_append_of_pos numeral.plain
  have filled : (numeral.digits ++
      tail.takeWhile fun point => (radixDigit? numeral.base point).isSome).isEmpty = false := by
    simp [numeral.filled]
  simp only [radixInteger?, if_true, List.append_eq, List.cons_append, announced, Option.bind_eq_bind,
    Option.bind_some, digits, filled, Bool.false_eq_true, if_false]
  exact ⟨_, rfl, by simp [RadixNumeral.spelling]⟩

/-- A number that is found is written there. -/
theorem number?_spelled (came : number? first rest = some found) :
    ∃ numeral : Numeral, numeral.spelling <+: first :: rest ∧
      found = (.number numeral.value, numeral.spelling.length - 1) := by
  obtain ⟨⟨number, after⟩, read, came⟩ := Option.bind_eq_some_iff.mp came
  obtain ⟨numeral, written, rfl, whole⟩ := Reading.decimal?_spelled read
  have length : (first :: rest).length - after.length = numeral.spelling.length := by
    rw [written, List.length_append, Nat.add_sub_cancel]
  refine ⟨numeral, ⟨after, written.symm⟩, ?_⟩
  dsimp only at came
  rw [length, ← whole] at came
  rw [← Option.some.inj came]
  refine congrArg (fun value => (Lexeme.number value, _)) ?_
  cases fraction : numeral.fraction with
  | none =>
      cases exponent : numeral.exponent with
      | none => simp [Numeral.value, Numeral.spelling, fraction, exponent]
      | some exponent' => simp [Numeral.value, Numeral.spelling, fraction, exponent, Numeral.Exponent.spelling]
  | some digits => simp [Numeral.value, Numeral.spelling, fraction]

/-- Where a number is written, one is found that is at least as long. -/
theorem number?_of_spelled (numeral : Numeral) (written : numeral.spelling <+: first :: rest) :
    ∃ found, number? first rest = some found ∧ numeral.spelling.length ≤ found.2 + 1 := by
  obtain ⟨tail, written⟩ := written
  obtain ⟨⟨number, after⟩, read, shorter⟩ := Reading.decimal?_of_spelled numeral tail
  rw [written] at read
  have length := congrArg List.length written
  rw [List.length_append] at length
  simp only [number?, read, Option.bind_eq_bind, Option.bind_some]
  refine ⟨_, rfl, ?_⟩
  dsimp only at shorter ⊢
  omega

theorem token_radixInteger {dialect : Dialect} (came : radixInteger? first rest = some found) :
    token dialect first rest = .ok found := by
  rw [token, came]
  rfl

theorem token_number {dialect : Dialect} (noRadix : radixInteger? first rest = none)
    (came : number? first rest = some found) : token dialect first rest = .ok found := by
  rw [token, noRadix, came]
  rfl

/-- The scanner of integers in base sixteen or two takes the longest one. -/
theorem radixInteger?_longest (numeral : RadixNumeral) (written : numeral.spelling <+: first :: rest) :
    ∃ longest : RadixNumeral, Text.Longest (first :: rest) RadixNumeral.spelling longest ∧
      radixInteger? first rest = some (.number (.int longest.value), longest.spelling.length - 1) := by
  obtain ⟨found, came, -⟩ := radixInteger?_of_spelled numeral written
  obtain ⟨longest, spelled, rfl⟩ := radixInteger?_spelled came
  refine ⟨longest, ⟨spelled, fun other written => ?_⟩, came⟩
  obtain ⟨found, again, shorter⟩ := radixInteger?_of_spelled other written
  cases came.symm.trans again
  exact shorter

/-- The scanner of numbers in base ten takes the longest one. -/
theorem number?_longest (numeral : Numeral) (written : numeral.spelling <+: first :: rest) :
    ∃ longest : Numeral, Text.Longest (first :: rest) Numeral.spelling longest ∧
      number? first rest = some (.number longest.value, longest.spelling.length - 1) := by
  obtain ⟨found, came, -⟩ := number?_of_spelled numeral written
  obtain ⟨longest, spelled, rfl⟩ := number?_spelled came
  refine ⟨longest, ⟨spelled, fun other written => ?_⟩, came⟩
  obtain ⟨found, again, shorter⟩ := number?_of_spelled other written
  cases came.symm.trans again
  rwa [Nat.sub_add_cancel (List.length_pos_iff.mpr longest.spelling_ne_nil)] at shorter

end Scan

namespace TokenStream

/-- The next token of a stream is a number that is spelled like this, and the stream goes on behind it. -/
def ReadsNumber (stream : TokenStream) (value : Value) (spelling : Text) : Prop :=
  stream.next = (.ok ⟨.number value, stream.cursor.skip.position⟩, { stream with
    cursor := ⟨stream.cursor.skip.position + spelling.length,
      stream.source.drop (stream.cursor.skip.position + spelling.length)⟩ })

theorem readsNumber_of_token {stream : TokenStream} (inside : stream.cursor.In stream.source)
    {first : CodePoint} {rest spelling : Text} {value : Value}
    (there : stream.source.drop stream.cursor.skip.position = first :: rest) (filled : spelling ≠ [])
    (read : Scan.token stream.dialect first rest = .ok (.number value, spelling.length - 1)) :
    stream.ReadsNumber value spelling := by
  have skipped : stream.cursor.skip.In stream.source := inside.skipGap .outside
  have length : spelling.length = spelling.length - 1 + 1 :=
    (Nat.sub_add_cancel (List.length_pos_iff.mpr filled)).symm
  have after : stream.source.drop (stream.cursor.skip.position + spelling.length) =
      rest.drop (spelling.length - 1) := by
    rw [length, ← List.drop_drop, there, List.drop_succ_cons, Nat.add_sub_cancel]
  rw [skipped.drop] at there
  have place : stream.cursor.skip = ⟨stream.cursor.skip.position, first :: rest⟩ := by rw [← there]
  rw [ReadsNumber, TokenStream.next, Cursor.next, place]
  simp only [read, after, Nat.add_assoc, ← length]

end TokenStream

/-- Numbers are read as far as they go. Let a stream stand at a place of its text, and look at what comes after
the gap there. If that begins with an integer in base sixteen or two, then the next token is the longest such
integer, with its positional value. Otherwise, if it begins with a number in base ten, then the next token is the
longest such number. In all other cases the scanners of numbers find nothing. -/
theorem numerals_longest {stream : TokenStream} (inside : stream.cursor.In stream.source) :
    let text : Text := stream.source.drop stream.cursor.skip.position
    (∀ numeral : RadixNumeral, numeral.spelling <+: text →
      ∃ longest, text.Longest RadixNumeral.spelling longest ∧
        stream.ReadsNumber (.int longest.value) longest.spelling) ∧
    ((∀ numeral : RadixNumeral, ¬numeral.spelling <+: text) →
      (∀ numeral : Numeral, numeral.spelling <+: text →
        ∃ longest, text.Longest Numeral.spelling longest ∧ stream.ReadsNumber longest.value longest.spelling) ∧
      ((∀ numeral : Numeral, ¬numeral.spelling <+: text) →
        ∀ first rest, text = first :: rest →
          Scan.radixInteger? first rest = none ∧ Scan.number? first rest = none)) := by
  intro text
  have noRadix {first : CodePoint} {rest : Text} (there : text = first :: rest)
      (none : ∀ numeral : RadixNumeral, ¬numeral.spelling <+: text) : Scan.radixInteger? first rest = Option.none := by
    refine Option.eq_none_iff_forall_ne_some.mpr fun found came => ?_
    obtain ⟨numeral, written, -⟩ := Scan.radixInteger?_spelled came
    exact none numeral (there ▸ written)
  refine ⟨fun numeral written => ?_, fun none => ⟨fun numeral written => ?_, fun nothing first rest there => ?_⟩⟩
  · cases there : text with
    | nil =>
        rw [there] at written
        cases List.prefix_nil.mp written
    | cons first rest =>
        rw [there] at written
        obtain ⟨longest, isLongest, came⟩ := Scan.radixInteger?_longest numeral written
        exact ⟨longest, isLongest, TokenStream.readsNumber_of_token inside there (List.cons_ne_nil _ _)
          (Scan.token_radixInteger came)⟩
  · cases there : text with
    | nil =>
        rw [there] at written
        exact absurd (List.prefix_nil.mp written) numeral.spelling_ne_nil
    | cons first rest =>
        rw [there] at written
        obtain ⟨longest, isLongest, came⟩ := Scan.number?_longest numeral written
        exact ⟨longest, isLongest, TokenStream.readsNumber_of_token inside there longest.spelling_ne_nil
          (Scan.token_number (noRadix there none) came)⟩
  · refine ⟨noRadix there none, Option.eq_none_iff_forall_ne_some.mpr fun found came => ?_⟩
    obtain ⟨numeral, written, -⟩ := Scan.number?_spelled came
    exact nothing numeral (there ▸ written)

/-- An integer in base sixteen before a letter, a number with an exponent before another point, and a point
before a name. -/
theorem numerals_longest_of_text :
    let source := Text.ofString "0x1Fg 1.5e3.x .x"
    let stream (place : Nat) : TokenStream :=
      { dialect := .standard {}, source := source, cursor := ⟨place, source.drop place⟩, checkpoint := ⟨0, source⟩ }
    let hexadecimal : RadixNumeral := ⟨16, 'x'.toNat, Text.ofString "1F", by decide, by decide, by decide⟩
    let scientific : Numeral := ⟨Text.ofString "1", some (Text.ofString "5"),
      some ⟨'e'.toNat, none, Text.ofString "3", by decide, nofun, by decide, by decide⟩, by decide, by decide⟩
    (hexadecimal.spelling <+: source ∧ ∃ longest, source.Longest RadixNumeral.spelling longest ∧
      (stream 0).ReadsNumber (.int longest.value) longest.spelling) ∧
    ((∀ numeral : RadixNumeral, ¬numeral.spelling <+: source.drop 6) ∧ scientific.spelling <+: source.drop 6 ∧
      ∃ longest, Text.Longest (source.drop 6) Numeral.spelling longest ∧
        (stream 5).ReadsNumber longest.value longest.spelling) ∧
    Scan.radixInteger? '.'.toNat (Text.ofString "x") = none ∧ Scan.number? '.'.toNat (Text.ofString "x") = none := by
  intro source stream hexadecimal scientific
  have inside (place : Nat) (within : place ≤ source.length) : (stream place).cursor.In source :=
    ⟨source.take place, (List.take_append_drop place source).symm, by rw [List.length_take, Nat.min_eq_left within]⟩
  have written : hexadecimal.spelling <+: source := by decide
  have writtenScientific : scientific.spelling <+: source.drop 6 := by decide
  have other {first : CodePoint} {rest : Text} (noZero : first ≠ '0'.toNat) (numeral : RadixNumeral) :
      ¬numeral.spelling <+: first :: rest := fun spelled => noZero (List.cons_prefix_cons.mp spelled).1.symm
  have unwritten (numeral : Numeral) : ¬numeral.spelling <+: source.drop 14 := fun spelled => by
    obtain ⟨found, came, -⟩ : ∃ found, Scan.number? '.'.toNat (Text.ofString "x") = some found ∧
        numeral.spelling.length ≤ found.2 + 1 := Scan.number?_of_spelled numeral spelled
    cases came
  obtain ⟨reads, -⟩ := @numerals_longest (stream 0) (inside 0 (by decide))
  obtain ⟨-, between⟩ := @numerals_longest (stream 5) (inside 5 (by decide))
  obtain ⟨-, last⟩ := @numerals_longest (stream 13) (inside 13 (by decide))
  exact ⟨⟨written, reads hexadecimal written⟩,
    ⟨other (by decide), writtenScientific, (between (other (by decide))).1 scientific writtenScientific⟩,
    (last (other (by decide))).2 unwritten _ _ rfl⟩

/-- A point belongs to the number before it even where no digit comes after it. -/
theorem point_without_digits :
    let source := Text.ofString "1."
    let stream := TokenStream.start (.standard {}) source
    (∀ numeral : RadixNumeral, ¬numeral.spelling <+: source) ∧
    (∃ numeral : Numeral, numeral.fraction ≠ some [] ∧ numeral.spelling <+: source) ∧
    ¬∃ longest : Numeral, longest.fraction ≠ some [] ∧ longest.spelling <+: source ∧
      (∀ other : Numeral, other.fraction ≠ some [] → other.spelling <+: source →
        other.spelling.length ≤ longest.spelling.length) ∧ stream.ReadsNumber longest.value longest.spelling := by
  intro source stream
  refine ⟨fun numeral spelled => absurd (List.cons_prefix_cons.mp spelled).1 (by decide),
    ⟨⟨Text.ofString "1", none, none, by decide, by decide⟩, nofun, by decide⟩, ?_⟩
  rintro ⟨⟨whole, fraction, exponent, plain, filled⟩, strict, spelled, -, reads⟩
  have length : 2 = 0 + _ := congrArg (fun result => result.2.cursor.position) reads
  have written : _ = Text.ofString "1." := spelled.eq_of_length (by rw [Nat.zero_add] at length; exact length.symm)
  clear reads
  simp only [Numeral.spelling] at length written
  cases exponent with
  | some exponent =>
      have digits := List.length_pos_iff.mpr exponent.filled
      have before := List.length_pos_iff.mpr filled
      cases fraction <;> simp [Numeral.Exponent.spelling] at length before <;> omega
  | none =>
      cases fraction with
      | none =>
          rw [Option.elim_none, Option.elim_none, List.append_nil, List.append_nil] at written
          cases plain '.'.toNat (List.mem_append_left _ (written ▸ by decide))
      | some digits =>
          have behind := List.length_pos_iff.mpr (fun empty : digits = [] => strict (congrArg some empty))
          have none : whole.length = 0 := by
            simp at length
            omega
          rw [List.length_eq_zero_iff.mp none] at written
          cases (List.cons.inj written).1

end Formula
