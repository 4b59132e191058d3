import Formula.Proofs.Derivation

/-!
The tokens of a text that has a space between them.
-/

namespace Formula

/-- How a token is written, as far as its value is a text or an integer. -/
def Lexeme.written (lexeme : Lexeme) : Text :=
  match lexeme.value with
  | .text content => content
  | .int size => Text.ofInt size
  | _ => []

/-- Whether a text ends here or has a space next. -/
def Text.Breaks (text : Text) : Prop := text = [] ∨ ∃ more, text = ' '.toNat :: more

namespace Tokens

variable {dialect : Dialect} {cursor : Cursor} {position : Nat}

theorem scan_finish (skipped : cursor.skip = ⟨position, []⟩) :
    scan dialect cursor = .finish position := by
  rw [scan]
  split
  · rename_i found
    rw [skipped] at found
    cases found
    rfl
  · rename_i found
    rw [skipped] at found
    cases found

theorem scan_token {first : CodePoint} {rest : Text} {lexeme : Lexeme} {size : Nat}
    (skipped : cursor.skip = ⟨position, first :: rest⟩)
    (read : Scan.token dialect first rest = .ok (lexeme, size)) :
    scan dialect cursor =
      .cons ⟨lexeme, position⟩ (scan dialect ⟨position + size + 1, rest.drop size⟩) := by
  rw [scan]
  split
  · rename_i found
    rw [skipped] at found
    cases found
  · rename_i found
    rw [skipped] at found
    cases found
    rw [read]

end Tokens

namespace Scan

variable {dialect : Dialect}

/-- Whether a token that is written before a space or the end of the text is read back. -/
structure Spelled (dialect : Dialect) (lexeme : Lexeme) (first : CodePoint) (others : Text) : Prop where
  written : lexeme.written = first :: others
  visible : Cursor.isBlank first = false
  noComment : first = '/'.toNat → others = []
  read : ∀ rest : Text, rest.Breaks →
    token dialect first (others ++ rest) = .ok (lexeme, others.length)

theorem skip_spelled {lexeme : Lexeme} {first : CodePoint} {others rest : Text} {position : Nat}
    (spelled : Spelled dialect lexeme first others) (breaks : rest.Breaks) :
    Cursor.skip ⟨position, first :: (others ++ rest)⟩ = ⟨position, first :: (others ++ rest)⟩ := by
  have open' : ¬(first = '/'.toNat ∧ (others ++ rest).head? = some '*'.toNat) := by
    rintro ⟨slash, star⟩
    rw [spelled.noComment slash] at star
    rcases breaks with rfl | ⟨more, rfl⟩ <;> cases star
  simp only [Cursor.skip, Cursor.skipGap, spelled.visible, if_neg open', Bool.false_eq_true, if_false]

theorem skip_space {text : Text} {position : Nat} :
    Cursor.skip ⟨position, ' '.toNat :: text⟩ = Cursor.skip ⟨position + 1, text⟩ := rfl

/-- A text of tokens with a space between them has these tokens. -/
theorem scan_spaced (lexemes : List Lexeme)
    (spelled : ∀ lexeme ∈ lexemes, ∃ first others, Spelled dialect lexeme first others)
    (cursor : Cursor) (position : Nat)
    (skipped : cursor.skip =
      Cursor.skip ⟨position, Text.join (Text.ofString " ") (lexemes.map Lexeme.written)⟩) :
    ∃ tokens last, tokens.map Token.lexeme = lexemes ∧
      Tokens.scan dialect cursor = Tokens.lay tokens (.finish last) := by
  induction lexemes generalizing cursor position with
  | nil => exact ⟨[], position, rfl, Tokens.scan_finish skipped⟩
  | cons lexeme lexemes ih =>
      obtain ⟨first, others, here⟩ := spelled lexeme List.mem_cons_self
      obtain ⟨rest, breaks, joined, next⟩ : ∃ rest : Text, rest.Breaks ∧
          Text.join (Text.ofString " ") ((lexeme :: lexemes).map Lexeme.written) =
            first :: (others ++ rest) ∧
          ∀ after, ∃ place, Cursor.skip ⟨after, rest⟩ =
            Cursor.skip ⟨place, Text.join (Text.ofString " ") (lexemes.map Lexeme.written)⟩ := by
        cases lexemes with
        | nil => exact ⟨[], .inl rfl, by simp [Text.join, here.written], fun after => ⟨after, rfl⟩⟩
        | cons second lexemes =>
            refine ⟨_, .inr ⟨_, rfl⟩, ?_, fun after => ⟨after + 1, skip_space⟩⟩
            simp [Text.join, here.written, Text.ofString]
      rw [joined, skip_spelled here breaks] at skipped
      obtain ⟨place, skippedNext⟩ := next (position + others.length + 1)
      obtain ⟨tokens, last, lexed, scanned⟩ := ih
        (fun other member => spelled other (List.mem_cons_of_mem _ member)) _ place skippedNext
      refine ⟨⟨lexeme, position⟩ :: tokens, last, by simp [lexed], ?_⟩
      rw [Tokens.scan_token skipped (here.read rest breaks), List.drop_left, scanned]
      rfl

/-! Operators and parentheses. -/

theorem spelled_openParenthesis :
    Spelled (.standard {}) .openParenthesis '('.toNat [] :=
  ⟨rfl, rfl, fun _ => rfl, by rintro rest (rfl | ⟨more, rfl⟩) <;> rfl⟩

theorem spelled_closeParenthesis :
    Spelled (.standard {}) .closeParenthesis ')'.toNat [] :=
  ⟨rfl, rfl, fun _ => rfl, by rintro rest (rfl | ⟨more, rfl⟩) <;> rfl⟩

theorem spelled_sign (sign : Char) (listed : sign ∈ ['^', '!', '?', ':', '+', '-']) :
    Spelled (.standard {}) (.operator [sign.toNat]) sign.toNat [] := by
  simp only [List.mem_cons, List.not_mem_nil, or_false] at listed
  rcases listed with rfl | rfl | rfl | rfl | rfl | rfl <;>
    exact ⟨rfl, rfl, fun _ => rfl, by rintro rest (rfl | ⟨more, rfl⟩) <;> rfl⟩

theorem spelled_operator {level : Level} {symbol : Text} (listed : symbol ∈ level.symbols) :
    ∃ first others, Spelled (.standard {}) (.operator symbol) first others := by
  have spell {first : CodePoint} {others : Text} (visible : Cursor.isBlank first = false)
      (noComment : first = '/'.toNat → others = [])
      (finishes : token (.standard {}) first (others ++ []) =
        .ok (.operator (first :: others), others.length))
      (goesOn : ∀ more, token (.standard {}) first (others ++ ' '.toNat :: more) =
        .ok (.operator (first :: others), others.length)) :
      ∃ first' others', Spelled (.standard {}) (.operator (first :: others)) first' others' := by
    refine ⟨first, others, rfl, visible, noComment, ?_⟩
    rintro rest (rfl | ⟨more, rfl⟩)
    · exact finishes
    · exact goesOn more
  cases level <;> simp only [Level.symbols, List.map_cons, List.map_nil, List.mem_cons,
    List.not_mem_nil, or_false] at listed
  · subst listed
    exact spell rfl (by decide) rfl fun _ => rfl
  · subst listed
    exact spell rfl (by decide) rfl fun _ => rfl
  · rcases listed with rfl | rfl | rfl | rfl | rfl | rfl | rfl <;>
      exact spell rfl (by decide) rfl fun _ => rfl
  · rcases listed with rfl | rfl | rfl <;> exact spell rfl (by decide) rfl fun _ => rfl
  · rcases listed with rfl | rfl | rfl <;> exact spell rfl (by decide) rfl fun _ => rfl

/-! Numbers. -/

theorem decimalValue_ofNat (number : Nat) : Reading.decimalValue (Text.ofNat number) = number := by
  have fold (digits : List Char) (value : Nat) :
      ((digits.map Char.toNat).map (· - '0'.toNat)).foldl (fun value digit => value * 10 + digit) value =
        Nat.ofDigitChars 10 digits value := by
    induction digits generalizing value with
    | nil => rfl
    | cons digit digits ih =>
        simp only [List.map_cons, List.foldl_cons, ih, Nat.ofDigitChars, Nat.mul_comm]
  rw [Reading.decimalValue, Reading.digitsValue, Text.ofNat, fold, Nat.ofDigitChars_ten_toDigits]

theorem isDigit_ofNat (number : Nat) {point : CodePoint} (member : point ∈ Text.ofNat number) :
    Text.isDigit point = true := by
  obtain ⟨digit, among, rfl⟩ := List.mem_map.mp member
  have digits := Nat.isDigit_of_mem_toDigits (by decide) (by decide) among
  simpa [Char.isDigit, Text.isDigit, Char.le_def, UInt32.le_iff_toNat_le] using digits

theorem Breaks.takeWhile_append {test : CodePoint → Bool} (text : Text) {rest : Text}
    (all : ∀ point ∈ text, test point = true) (space : test ' '.toNat = false)
    (breaks : rest.Breaks) : (text ++ rest).takeWhile test = text := by
  rw [List.takeWhile_append_of_pos all]
  rcases breaks with rfl | ⟨more, rfl⟩
  · exact List.append_nil text
  · rw [List.takeWhile_cons_of_neg (by simp only [space, Bool.false_eq_true, not_false_iff]),
      List.append_nil]

theorem Breaks.dropWhile_append {test : CodePoint → Bool} (text : Text) {rest : Text}
    (all : ∀ point ∈ text, test point = true) (space : test ' '.toNat = false)
    (breaks : rest.Breaks) : (text ++ rest).dropWhile test = rest := by
  rw [List.dropWhile_append_of_pos all]
  rcases breaks with rfl | ⟨more, rfl⟩
  · rfl
  · rw [List.dropWhile_cons_of_neg (by simp only [space, Bool.false_eq_true, not_false_iff])]

/-- Digits before a space are read as an integer. -/
theorem number?_digits {first : CodePoint} {others rest : Text}
    (digits : ∀ point ∈ first :: others, Text.isDigit point = true) (breaks : rest.Breaks) :
    number? first (others ++ rest) =
      some (.number (.int (Reading.decimalValue (first :: others))), others.length) := by
  have taken : (first :: (others ++ rest)).takeWhile Text.isDigit = first :: others :=
    Breaks.takeWhile_append (first :: others) digits rfl breaks
  have left : (first :: (others ++ rest)).dropWhile Text.isDigit = rest :=
    Breaks.dropWhile_append (first :: others) digits rfl breaks
  have decimal : Reading.decimal? (first :: (others ++ rest)) =
      some (⟨Reading.decimalValue (first :: others), 0⟩, rest) := by
    simp only [Reading.decimal?, taken, left]
    rcases breaks with rfl | ⟨more, rfl⟩ <;> simp [Reading.exponent?]
  simp only [number?, decimal, taken]
  simp
  omega

/-- Digits before a space announce no other base. -/
theorem radixInteger?_digits {first : CodePoint} {others rest : Text}
    (digits : ∀ point ∈ first :: others, Text.isDigit point = true) (breaks : rest.Breaks) :
    radixInteger? first (others ++ rest) = none := by
  have unmarked (point : CodePoint) (plain : Text.isDigit point = true ∨ point = ' '.toNat) :
      radix? point = none := by
    have other {marker : CodePoint} (noDigit : Text.isDigit marker = false)
        (noSpace : ' '.toNat ≠ marker) : point ≠ marker := by
      rintro rfl
      rcases plain with digit | rfl
      · rw [noDigit] at digit
        cases digit
      · exact noSpace rfl
    rw [radix?, if_neg (other rfl (by decide)), if_neg (other rfl (by decide))]
  unfold radixInteger?
  split
  · cases others with
    | nil =>
        rcases breaks with rfl | ⟨more, rfl⟩
        · rfl
        · simp only [List.nil_append, unmarked ' '.toNat (.inr rfl)]
          rfl
    | cons second others =>
        have plain := digits second (List.mem_cons_of_mem _ List.mem_cons_self)
        simp only [List.cons_append, unmarked second (.inl plain)]
        rfl
  · rfl

theorem spelled_number (number : Nat) :
    ∃ first others, Spelled (.standard {}) (.number (.int number)) first others := by
  have filled : Text.ofNat number ≠ [] := by
    simp [Text.ofNat, Nat.toDigits_ne_nil]
  obtain ⟨first, others, written⟩ := List.exists_cons_of_ne_nil filled
  have digits (point : CodePoint) (member : point ∈ first :: others) : Text.isDigit point = true :=
    isDigit_ofNat number (written ▸ member)
  have size := decimalValue_ofNat number
  rw [written] at size
  refine ⟨first, others, written, ?_, ?_, fun rest breaks => ?_⟩
  · simp only [Cursor.isBlank, Bool.or_eq_false_iff, beq_eq_false_iff_ne, and_assoc]
    refine ⟨?_, ?_, ?_, ?_⟩ <;> rintro rfl <;> exact absurd (digits _ List.mem_cons_self) (by decide)
  · rintro rfl
    exact absurd (digits _ List.mem_cons_self) (by decide)
  · rw [token, radixInteger?_digits digits breaks, number?_digits digits breaks, size]
    rfl

end Scan

/-- A word that is a name in the standard dialect: no operator and no constant. -/
structure Identifier where
  first : CodePoint
  others : Text
  begins : (Text.isLetter first || first == '_'.toNat ||
    (first == '$'.toNat && others.head?.any Text.isLetter)) = true
  goesOn : ∀ point ∈ others, Scan.isNamePart point = true
  noOperator : (Dialect.standard {}).isOperatorWord (first :: others) = false
  noConstant : (Dialect.standard {}).constants.get? (first :: others) = none

namespace Identifier

def word (identifier : Identifier) : Text := identifier.first :: identifier.others

end Identifier

namespace Scan

/-- What a token begins with that is no word, and what stands between tokens. -/
def signs : Text := Text.ofString "0123456789.+-*/%^?:∙•><=!|'\"()[],; \t\n\r"

variable {first : CodePoint} {rest : Text} {dialect : Dialect}

theorem ne_of_notMem_signs (word : first ∉ signs) {point : CodePoint} (sign : point ∈ signs) :
    first ≠ point := by
  rintro rfl
  exact word sign

theorem isDigit_of_notMem_signs (word : first ∉ signs) : Text.isDigit first = false := by
  refine Bool.eq_false_iff.mpr fun digit => ?_
  have bounds : 48 ≤ first ∧ first ≤ 57 := by simpa [Text.isDigit] using digit
  have listed : ∀ point < 58, 48 ≤ point → point ∈ signs := by decide +kernel
  exact word (listed first (Nat.lt_succ_of_le bounds.2) bounds.1)

theorem radixInteger?_word (word : first ∉ signs) : radixInteger? first rest = none := by
  unfold radixInteger?
  rw [if_neg (ne_of_notMem_signs word (by decide))]

theorem number?_word (word : first ∉ signs) : number? first rest = none := by
  have digit := isDigit_of_notMem_signs word
  have point : first ≠ '.'.toNat := ne_of_notMem_signs word (by decide)
  have decimal : Reading.decimal? (first :: rest) = none := by
    simp only [Reading.decimal?, List.takeWhile_cons, List.dropWhile_cons, digit, Bool.false_eq_true,
      if_false, if_neg point]
    rfl
  simp only [number?, decimal]
  rfl

theorem signs?_word (word : first ∉ signs) : signs? first rest = none := by
  have single : first ∉ singleSigns := fun member =>
    word ((by decide : ∀ point ∈ singleSigns, point ∈ signs) first member)
  have times : first ∉ multiplicationSigns := fun member =>
    word ((by decide : ∀ point ∈ multiplicationSigns, point ∈ signs) first member)
  have opens : first ∉ openSigns := fun member =>
    word ((by decide : ∀ point ∈ openSigns, point ∈ signs) first member)
  have bar : first ≠ '|'.toNat := ne_of_notMem_signs word (by decide)
  simp only [signs?, if_neg single, if_neg times, if_neg opens, bar, false_and, if_false]

theorem text?_word (word : first ∉ signs) : text? first rest = none := by
  rw [text?, if_neg]
  rintro (same | same) <;> exact ne_of_notMem_signs word (by decide) same

theorem punctuation?_word (word : first ∉ signs) : punctuation? dialect first = none := by
  have other {point : CodePoint} (sign : point ∈ signs) : first ≠ point := ne_of_notMem_signs word sign
  simp only [punctuation?, if_neg (other (by decide : '('.toNat ∈ signs)),
    if_neg (other (by decide : ')'.toNat ∈ signs)), other (by decide : '['.toNat ∈ signs),
    other (by decide : ']'.toNat ∈ signs), if_neg (other (by decide : ','.toNat ∈ signs)),
    if_neg (other (by decide : ';'.toNat ∈ signs)), false_and, if_false]

/-- At a word only the scanners of words find anything. -/
theorem token_word (word : first ∉ signs) :
    token dialect first rest =
      match wordOperator? dialect first rest <|> constant? dialect first rest <|> name? first rest with
      | some found => .ok found
      | none => .error (.unknownCharacter first, 0) := by
  simp only [token, radixInteger?_word word, number?_word word, operator?, signs?_word word,
    text?_word word, punctuation?_word word]
  rfl

end Scan

namespace Identifier

variable (identifier : Identifier)

theorem first_notMem_signs : identifier.first ∉ Scan.signs := by
  intro member
  have plain : ∀ point ∈ Scan.signs,
      Text.isLetter point = false ∧ point ≠ '_'.toNat ∧ point ≠ '$'.toNat := by decide +kernel
  obtain ⟨noLetter, noLine, noDollar⟩ := plain _ member
  rcases Bool.or_eq_true_iff.mp identifier.begins with begins | begins
  · rcases Bool.or_eq_true_iff.mp begins with begins | begins
    · rw [noLetter] at begins
      cases begins
    · exact noLine (eq_of_beq begins)
  · exact noDollar (eq_of_beq (Bool.and_eq_true_iff.mp begins).1)

/-- A name before a space is read as a name. -/
theorem token_name {rest : Text} (breaks : rest.Breaks) :
    Scan.token (.standard {}) identifier.first (identifier.others ++ rest) =
      .ok (.name identifier.word, identifier.others.length) := by
  have tail : (identifier.others ++ rest).takeWhile Scan.isNamePart = identifier.others :=
    Scan.Breaks.takeWhile_append identifier.others identifier.goesOn (by decide +kernel) breaks
  have dotted : (identifier.others ++ rest).takeWhile
      (fun point => Scan.isNamePart point || point == '.'.toNat) = identifier.others :=
    Scan.Breaks.takeWhile_append identifier.others (fun point member => by simp [identifier.goesOn point member])
      (by decide +kernel) breaks
  have noOperator : Scan.wordOperator? (.standard {}) identifier.first (identifier.others ++ rest) =
      none := by
    simp only [Scan.wordOperator?, Scan.word?, tail]
    split
    · simp [identifier.noOperator]
    · rfl
  have noConstant : Scan.constant? (.standard {}) identifier.first (identifier.others ++ rest) =
      none := by
    simp only [Scan.constant?, Scan.dottedWord?, dotted]
    split
    · simp [identifier.noConstant]
    · rfl
  have name : Scan.name? identifier.first (identifier.others ++ rest) =
      some (.name identifier.word, identifier.others.length) := by
    have begins : (Text.isLetter identifier.first || identifier.first == '_'.toNat ||
        (identifier.first == '$'.toNat &&
          (identifier.others ++ rest).head?.any Text.isLetter)) = true := by
      have begins := identifier.begins
      cases others : identifier.others with
      | nil =>
          rw [others] at begins
          simp only [List.head?_nil, Option.any_none, Bool.and_false, Bool.or_false] at begins
          rw [begins, Bool.true_or]
      | cons second third =>
          rw [others] at begins
          exact begins
    simp only [Scan.name?, begins, tail]
    rfl
  rw [Scan.token_word identifier.first_notMem_signs, noOperator, noConstant, name]
  rfl

theorem spelled :
    Scan.Spelled (.standard {}) (.name identifier.word) identifier.first identifier.others := by
  have word := identifier.first_notMem_signs
  refine ⟨rfl, ?_, ?_, fun rest breaks => identifier.token_name breaks⟩
  · simp only [Cursor.isBlank, Bool.or_eq_false_iff, beq_eq_false_iff_ne, and_assoc]
    refine ⟨?_, ?_, ?_, ?_⟩ <;> exact Scan.ne_of_notMem_signs word (by decide)
  · intro slash
    exact absurd slash (Scan.ne_of_notMem_signs word (by decide))

end Identifier

end Formula
