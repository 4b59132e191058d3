import Formula.Proofs.Lexing

/-!
Where tokens end for certain. A blank, a semicolon or a closing parenthesis goes on with no token, so that a
token stays the same whatever begins with one of them after it.
-/

namespace Formula

/-- Signs that go on with no token before them. -/
def partingSigns : Text := Text.ofString " \t\n\r;)"

/-- A text that is empty or begins with such a sign. -/
def Text.Parts (text : Text) : Prop := ∀ point rest, text = point :: rest → point ∈ partingSigns

namespace Text.Parts

variable {tail : Text}

theorem head {point : CodePoint} (parts : tail.Parts) (head : tail.head? = some point) : point ∈ partingSigns := by
  obtain ⟨rest, rfl⟩ := List.head?_eq_some_iff.mp head
  exact parts point rest rfl

/-- A run of points that no such sign belongs to ends before it. -/
theorem takeWhile_append (parts : tail.Parts) {test : CodePoint → Bool}
    (fails : ∀ point ∈ partingSigns, test point = false) (text : Text) :
    (text ++ tail).takeWhile test = text.takeWhile test := by
  induction text with
  | nil =>
      cases tail with
      | nil => rfl
      | cons point rest => simp [fails point (parts point rest rfl)]
  | cons point text ih =>
      rw [List.cons_append, List.takeWhile_cons, List.takeWhile_cons, ih]

theorem dropWhile_append (parts : tail.Parts) {test : CodePoint → Bool}
    (fails : ∀ point ∈ partingSigns, test point = false) (text : Text) :
    (text ++ tail).dropWhile test = text.dropWhile test ++ tail := by
  induction text with
  | nil =>
      cases tail with
      | nil => rfl
      | cons point rest => simp [fails point (parts point rest rfl)]
  | cons point text ih =>
      rw [List.cons_append, List.dropWhile_cons, List.dropWhile_cons, ih]
      split <;> rfl

/-- What comes next is some other sign in the one text if and only if it is in the other. -/
theorem head_append (parts : tail.Parts) (sign : CodePoint) (other : sign ∉ partingSigns) (text : Text) :
    (text ++ tail).head? = some sign ↔ text.head? = some sign := by
  cases text with
  | nil =>
      constructor
      · intro head
        exact absurd (parts.head head) other
      · nofun
  | cons point text => rfl

end Text.Parts

namespace Scan

variable {dialect : Dialect}

theorem digit_parting : ∀ point ∈ partingSigns, Text.isDigit point = false := by decide

theorem namePart_parting : ∀ point ∈ partingSigns, isNamePart point = false := by decide +kernel

theorem letter_parting : ∀ point ∈ partingSigns, Text.isLetter point = false := by decide +kernel

theorem radixDigit_parting (base : Nat) : ∀ point ∈ partingSigns, radixDigit? base point = none := by
  have none : ∀ point ∈ partingSigns, Text.isDigit point = false ∧
      ¬('a'.toNat ≤ point ∧ point ≤ 'f'.toNat) ∧ ¬('A'.toNat ≤ point ∧ point ≤ 'F'.toNat) := by decide
  intro point member
  obtain ⟨digit, lower, upper⟩ := none point member
  simp only [radixDigit?, digit, Bool.false_eq_true, if_false, if_neg lower, if_neg upper, Option.filter_none]

section

variable {tail : Text} (parts : tail.Parts) (first : CodePoint) (rest : Text)

include parts

theorem radixInteger?_append : radixInteger? first (rest ++ tail) = radixInteger? first rest := by
  have signs : ∀ point ∈ partingSigns, radix? point = none := by decide
  have digits (base : Nat) (text : Text) :
      (text ++ tail).takeWhile (fun point => (radixDigit? base point).isSome) =
        text.takeWhile fun point => (radixDigit? base point).isSome :=
    parts.takeWhile_append (fun point member => by rw [radixDigit_parting base point member]; rfl) text
  cases rest with
  | nil =>
      cases tail with
      | nil => rfl
      | cons point more =>
          rw [List.nil_append]
          simp [radixInteger?, signs point (parts point more rfl)]
  | cons marker body => simp only [List.cons_append, radixInteger?, digits]

theorem exponent?_append (text : Text) :
    Reading.exponent? (text ++ tail) =
      (Reading.exponent? text).map fun found => (found.1, found.2 ++ tail) := by
  have marks : ∀ point ∈ partingSigns, (point = 'e'.toNat || point = 'E'.toNat) = false := by decide
  have signs : ∀ point ∈ partingSigns, ¬point = '-'.toNat ∧ ¬point = '+'.toNat := by decide
  have ends : ∀ text : Text, text.Parts → Reading.exponent? text = none := by
    intro text parts
    cases text with
    | nil => rfl
    | cons point more => simp only [Reading.exponent?, marks point (parts point more rfl), Bool.false_eq_true, if_false]
  have split (rest : Text) : Reading.splitSign (rest ++ tail) =
      ((Reading.splitSign rest).1, (Reading.splitSign rest).2 ++ tail) := by
    cases rest with
    | nil =>
        cases tail with
        | nil => rfl
        | cons point more =>
            obtain ⟨minus, plus⟩ := signs point (parts point more rfl)
            simp only [List.nil_append, Reading.splitSign, if_neg minus, if_neg plus]
    | cons point rest =>
        simp only [List.cons_append, Reading.splitSign]
        split
        · rfl
        · split <;> rfl
  cases text with
  | nil => rw [List.nil_append, ends tail parts]; rfl
  | cons mark rest =>
      simp only [List.cons_append, Reading.exponent?]
      split
      · simp only [split, parts.takeWhile_append digit_parting, parts.dropWhile_append digit_parting]
        split <;> rfl
      · rfl

theorem decimal?_append (text : Text) :
    Reading.decimal? (text ++ tail) =
      (Reading.decimal? text).map fun found => (found.1, found.2 ++ tail) := by
  have points : ∀ point ∈ partingSigns, ¬point = '.'.toNat := by decide
  -- The number ends where its exponent ends, or before the rest without one.
  have close (whole fraction rest : Text) :
      (if (whole.isEmpty && fraction.isEmpty) = true then none
        else some (⟨Reading.decimalValue (whole ++ fraction),
            ((Reading.exponent? (rest ++ tail)).getD (0, rest ++ tail)).1 - fraction.length⟩,
          ((Reading.exponent? (rest ++ tail)).getD (0, rest ++ tail)).2) : Option (Decimal × Text)) =
      (if (whole.isEmpty && fraction.isEmpty) = true then none
        else some (⟨Reading.decimalValue (whole ++ fraction),
            ((Reading.exponent? rest).getD (0, rest)).1 - fraction.length⟩,
          ((Reading.exponent? rest).getD (0, rest)).2)).map fun found => (found.1, found.2 ++ tail) := by
    split
    · rfl
    · rw [exponent?_append parts]
      cases Reading.exponent? rest <;> rfl
  unfold Reading.decimal?
  rw [parts.takeWhile_append digit_parting, parts.dropWhile_append digit_parting]
  cases text.dropWhile Text.isDigit with
  | nil =>
      cases tail with
      | nil => exact close _ [] []
      | cons point more =>
          simp only [List.nil_append, if_neg (points point (parts point more rfl))]
          exact close _ [] []
  | cons point rest =>
      simp only [List.cons_append]
      split
      · rw [parts.takeWhile_append digit_parting, parts.dropWhile_append digit_parting]
        exact close _ _ _
      · exact close _ [] (point :: rest)

theorem number?_append : number? first (rest ++ tail) = number? first rest := by
  have whole : first :: (rest ++ tail) = (first :: rest) ++ tail := rfl
  simp only [number?, whole, decimal?_append parts, parts.takeWhile_append digit_parting]
  cases Reading.decimal? (first :: rest) with
  | none => rfl
  | some found =>
      simp only [Option.map_some, Option.bind_eq_bind, Option.bind_some, List.length_append]
      rw [Nat.add_sub_add_right]

theorem operator?_append : operator? dialect first (rest ++ tail) = operator? dialect first rest := by
  have equals := parts.head_append '='.toNat (by decide) rest
  have bar := parts.head_append '|'.toNat (by decide) rest
  simp only [operator?, signs?, equals, bar]

theorem wordOperator?_append : wordOperator? dialect first (rest ++ tail) = wordOperator? dialect first rest := by
  simp only [wordOperator?, word?, parts.takeWhile_append namePart_parting]

theorem constant?_append : constant? dialect first (rest ++ tail) = constant? dialect first rest := by
  have fails : ∀ point ∈ partingSigns, (isNamePart point || point == '.'.toNat) = false := by decide +kernel
  simp only [constant?, dottedWord?, parts.takeWhile_append fails]

theorem name?_append : name? first (rest ++ tail) = name? first rest := by
  have letter : (rest ++ tail).head?.any Text.isLetter = rest.head?.any Text.isLetter := by
    cases rest with
    | nil =>
        cases tail with
        | nil => rfl
        | cons point more => exact letter_parting point (parts point more rfl)
    | cons point rest => rfl
  simp only [name?, parts.takeWhile_append namePart_parting, letter]

end

variable {first : CodePoint} {rest tail : Text} {found : Found}

/-- What is between quotes stays so. -/
theorem closingQuote?_append {quote previous : CodePoint} {text : Text} {size : Nat}
    (closes : closingQuote? quote previous text = some size) (tail : Text) :
    closingQuote? quote previous (text ++ tail) = some size := by
  induction text generalizing previous size with
  | nil => cases closes
  | cons point text ih =>
      rw [closingQuote?] at closes
      rw [List.cons_append, closingQuote?]
      split at closes
      · rename_i here
        rw [if_pos here]
        exact closes
      · rename_i onward
        obtain ⟨smaller, later, rfl⟩ := Option.map_eq_some_iff.mp closes
        rw [if_neg onward, ih later]
        rfl

theorem text?_append {result : Except (ParseCause × Nat) Found} (came : text? first rest = some result)
    (tail : Text) : text? first (rest ++ tail) = some result := by
  unfold text? at came ⊢
  split at came
  · rename_i quoted
    obtain ⟨size, closes, rfl⟩ := Option.map_eq_some_iff.mp came
    obtain ⟨content, after, same, length, -⟩ := closingQuote_found closes
    have within : size ≤ rest.length := by
      rw [same, List.length_append]
      omega
    rw [if_pos quoted, closingQuote?_append closes]
    simp only [Option.map_some, List.take_append_of_le_length within]
  · cases came

/-- A quote begins nothing but a text. -/
theorem quote_begins (quoted : first = '\''.toNat ∨ first = '"'.toNat) (rest : Text) :
    radixInteger? first rest = none ∧ number? first rest = none ∧ operator? dialect first rest = none ∧
      punctuation? dialect first = none ∧ wordOperator? dialect first rest = none ∧
      constant? dialect first rest = none ∧ name? first rest = none := by
  rcases quoted with rfl | rfl
  · exact ⟨rfl, rfl, rfl, rfl, rfl, rfl, rfl⟩
  · exact ⟨rfl, rfl, rfl, rfl, rfl, rfl, rfl⟩

/-- A token is the same before a text that begins with a parting sign. -/
theorem token_append (parts : tail.Parts) (came : token dialect first rest = .ok found) :
    token dialect first (rest ++ tail) = .ok found := by
  unfold token at came ⊢
  rw [radixInteger?_append parts, number?_append parts, operator?_append parts, wordOperator?_append parts,
    constant?_append parts, name?_append parts]
  split at came
  · exact came
  · split at came
    · rename_i quoted
      rw [text?_append quoted]
      exact came
    · rename_i unquoted
      by_cases quoted : first = '\''.toNat ∨ first = '"'.toNat
      · obtain ⟨-, -, -, sign, word, constant, name⟩ := @quote_begins dialect first quoted rest
        rw [sign, word, constant, name] at came
        cases came
      · have unquoted : text? first (rest ++ tail) = none := by
          rw [text?, if_neg quoted]
        rw [unquoted]
        exact came

end Scan

end Formula
