import Formula.Proofs.Figures
import Formula.Proofs.Naming
import Formula.Proofs.Quoting

/-!
Words and literals in their places. What may come right after a part of a text depends on the place of the part,
and so does which words and which literals are read back there.
-/

namespace Formula

/-- The place of a part of a text, by what comes after it. -/
inductive Place where
  /-- Before a closing parenthesis, a comma, a semicolon or the end. -/
  | ended
  /-- Before an operator or a closing bracket. -/
  | joined
  /-- Before the parenthesis of a call. -/
  | called
  /-- Before the bracket of an index. -/
  | indexed
  /-- Before the point of a member. -/
  | dotted
  deriving DecidableEq

namespace Place

/-- The signs that may come next. -/
def signs : Place → Text
  | .ended => Text.ofString "),;"
  | .joined => Text.ofString " !]"
  | .called => Text.ofString "("
  | .indexed => Text.ofString "["
  | .dotted => Text.ofString "."

/-- Whether a text may come after a part in some place. -/
inductive Before : Place → Text → Prop
  | nothing : Before .ended []
  | sign {place : Place} {point : CodePoint} {rest : Text} (listed : point ∈ place.signs) :
      Before place (point :: rest)

variable {place : Place} {tail : Text}

theorem Before.listed (before : place.Before tail) {point : CodePoint} (next : point ∈ tail.head?) :
    point ∈ place.signs := by
  cases before with
  | nothing => cases next
  | sign listed =>
      cases next
      exact listed

/-- No word and no number goes on with what comes after a part. -/
theorem Before.parted (before : place.Before tail) {point : CodePoint} (next : point ∈ tail.head?) :
    Scan.isNamePart point = false ∧ Text.isDigit point = false ∧ Scan.radix? point = none ∧
      (point = 'e'.toNat || point = 'E'.toNat) = false ∧ (point = '.'.toNat ↔ place = .dotted) := by
  have all : ∀ place, ∀ point ∈ signs place, Scan.isNamePart point = false ∧ Text.isDigit point = false ∧
      Scan.radix? point = none ∧ (point = 'e'.toNat || point = 'E'.toNat) = false ∧
        (point = '.'.toNat ↔ place = .dotted) := by
    intro place
    cases place <;> decide +kernel
  exact all place point (before.listed next)

theorem Before.noExponent (before : place.Before tail) : Reading.exponent? tail = none := by
  cases tail with
  | nil => rfl
  | cons point rest =>
      obtain ⟨-, -, -, noMark, -⟩ := before.parted rfl
      rw [Reading.exponent?, if_neg (by rw [noMark]; decide)]

/-- A word is taken as long as it goes. -/
theorem Before.takeWhile_word (before : place.Before tail) {others : Text}
    (goesOn : ∀ point ∈ others, Scan.isNamePart point = true) :
    (others ++ tail).takeWhile Scan.isNamePart = others ∧ (others ++ tail).dropWhile Scan.isNamePart = tail := by
  rw [List.takeWhile_append_of_pos goesOn, List.dropWhile_append_of_pos goesOn]
  cases tail with
  | nil => exact ⟨List.append_nil _, rfl⟩
  | cons point rest =>
      have stops : ¬Scan.isNamePart point = true := by
        rw [(before.parted rfl).1]
        decide
      rw [List.takeWhile_cons_of_neg stops, List.dropWhile_cons_of_neg stops]
      exact ⟨List.append_nil _, rfl⟩

end Place

/-! Words. -/

/-- The token that a word is: an operator, or else a name. -/
def Text.lexeme (word : Text) : Lexeme :=
  if (Dialect.standard {}).isOperatorWord word then .operator word else .name word

/-- Whether a word is no constant, or is none because a point goes on with it. -/
def Text.Free (word : Text) (place : Place) : Prop :=
  place = .dotted ∨ (Dialect.standard {}).constants.get? word = none

/-- Whether a word is a name in some place. -/
structure Text.Proper (word : Text) (place : Place) : Prop where
  named : word.IsName
  noOperator : (Dialect.standard {}).isOperatorWord word = false
  free : word.Free place

namespace Scan

variable {place : Place} {first : CodePoint} {others rest tail : Text}

theorem enables_standard (word : Text) : (Dialect.standard {}).enables word = true := rfl

/-- No constant has a point in its name. -/
theorem constant?_dotted (goesOn : ∀ point ∈ others, isNamePart point = true) (tail : Text) :
    constant? (.standard {}) first (others ++ '.'.toNat :: tail) = none := by
  have pointless : ∀ entry ∈ standardConstants, '.'.toNat ∉ entry.1 := by decide
  have part (point : CodePoint) (member : point ∈ others) : (isNamePart point || point == '.'.toNat) = true := by
    rw [goesOn point member, Bool.true_or]
  refine Option.eq_none_iff_forall_ne_some.mpr fun found came => ?_
  obtain ⟨word, dotted, came⟩ := Option.bind_eq_some_iff.mp came
  obtain ⟨value, held, -⟩ := Option.bind_eq_some_iff.mp came
  rw [dottedWord?] at dotted
  split at dotted
  · refine pointless _ (Table.mem_of_get? held) ?_
    rw [← Option.some.inj dotted, List.takeWhile_append_of_pos part, List.takeWhile_cons_of_pos (by decide +kernel)]
    simp
  · cases dotted

theorem goesOn_of_isName (named : Text.IsName (first :: others)) : ∀ point ∈ others, isNamePart point = true := by
  cases named with
  | letter _ goesOn => exact goesOn
  | underscore goesOn => exact goesOn
  | dollar letter goesOn => exact List.forall_mem_cons.mpr ⟨isNamePart_of_isLetter letter, goesOn⟩

theorem constant?_free (before : place.Before tail) (named : Text.IsName (first :: others))
    (free : Text.Free (first :: others) place) : constant? (.standard {}) first (others ++ tail) = none := by
  obtain ⟨taken, left⟩ := before.takeWhile_word (goesOn_of_isName named)
  by_cases dotted : place = .dotted
  · subst dotted
    cases before with
    | sign listed =>
        obtain rfl := List.mem_singleton.mp listed
        exact constant?_dotted (goesOn_of_isName named) _
  · have parted : ((others ++ tail).dropWhile isNamePart).head? ≠ some '.'.toNat := by
      intro point
      rw [left] at point
      exact dotted ((before.parted point).2.2.2.2.mp rfl)
    have isName : Text.IsName (first :: (others ++ tail).takeWhile isNamePart) := by rwa [taken]
    rw [constant?_standard isName parted, taken]
    exact free.resolve_left dotted

/-- A word is one token where it stands free. -/
theorem token_of_word (before : place.Before tail) (named : Text.IsName (first :: others))
    (free : Text.Free (first :: others) place) :
    token (.standard {}) first (others ++ tail) = .ok (Text.lexeme (first :: others), others.length) := by
  obtain ⟨taken, -⟩ := before.takeWhile_word (goesOn_of_isName named)
  have isName : Text.IsName (first :: (others ++ tail).takeWhile isNamePart) := by rwa [taken]
  rw [Text.lexeme]
  split
  · rename_i listed
    have letter : Text.isLetter first = true := by
      by_contra noLetter
      have mark := named.mark (eq_false_of_ne_true noLetter)
      rw [(Dialect.marks_of_standard {} first mark others).1] at listed
      cases listed
    have operator : wordOperator? (.standard {}) first (others ++ tail) =
        some (.operator (first :: others), others.length) := by
      simp [wordOperator?, word?, letter, taken, listed, enables_standard]
    rw [token_word (notMem_signs_of_isName named), operator]
    rfl
  · rename_i unlisted
    refine token_name_iff.mpr ⟨name?_iff.mpr ⟨?_, ?_, named⟩, ?_, constant?_free before named free⟩
    · rw [taken]
    · rw [taken]
    · rw [wordOperator?_standard isName, taken, Dialect.operatesWord, eq_false_of_ne_true unlisted, Bool.false_and]

theorem visible_of_notMem_signs (word : first ∉ signs) : Cursor.isBlank first = false := by
  simp only [Cursor.isBlank, Bool.or_eq_false_iff, beq_eq_false_iff_ne, and_assoc]
  exact ⟨ne_of_notMem_signs word (by decide), ne_of_notMem_signs word (by decide),
    ne_of_notMem_signs word (by decide), ne_of_notMem_signs word (by decide)⟩

/-- A text in quotes is the same token whatever comes after it. -/
theorem token_quoted {dialect : Dialect} (quoted : first = '\''.toNat ∨ first = '"'.toNat) {found : Found}
    (came : token dialect first rest = .ok found) (tail : Text) :
    token dialect first (rest ++ tail) = .ok found := by
  obtain ⟨radix, number, operator, sign, word, constant, name⟩ := @quote_begins dialect first quoted rest
  obtain ⟨radix', number', operator', -⟩ := @quote_begins dialect first quoted (rest ++ tail)
  simp only [token, radix, number, operator, sign, word, constant, name] at came
  simp only [token, radix', number', operator']
  cases read : text? first rest with
  | none =>
      rw [read] at came
      cases came
  | some result =>
      rw [read] at came
      rw [text?_append read tail]
      exact came

/-- A constant is one token too, where no point goes on with it. -/
theorem token_of_constant (before : place.Before tail) (joined : place ≠ .dotted)
    (named : Text.IsName (first :: others)) (noOperator : (Dialect.standard {}).isOperatorWord (first :: others) = false)
    {value : Value} (held : (Dialect.standard {}).constants.get? (first :: others) = some value) :
    token (.standard {}) first (others ++ tail) = .ok (.number value, others.length) := by
  obtain ⟨taken, -⟩ := before.takeWhile_word (goesOn_of_isName named)
  have isName : Text.IsName (first :: (others ++ tail).takeWhile isNamePart) := by rwa [taken]
  have operator : wordOperator? (.standard {}) first (others ++ tail) = none := by
    rw [wordOperator?_standard isName, taken, Dialect.operatesWord, noOperator, Bool.false_and]
  have letter : Text.isLetter first = true := by
    by_contra noLetter
    have mark := named.mark (eq_false_of_ne_true noLetter)
    rw [(Dialect.marks_of_standard {} first mark others).2] at held
    cases held
  have dotted : (others ++ tail).takeWhile (fun point => isNamePart point || point == '.'.toNat) = others := by
    rw [List.takeWhile_append_of_pos fun point member => by rw [goesOn_of_isName named point member, Bool.true_or]]
    cases tail with
    | nil => exact List.append_nil _
    | cons point rest =>
        obtain ⟨noPart, -, -, -, noPoint⟩ := before.parted rfl
        have other : point ≠ '.'.toNat := fun same => joined (noPoint.mp same)
        rw [List.takeWhile_cons_of_neg (by simpa [noPart] using other), List.append_nil]
  have constant : constant? (.standard {}) first (others ++ tail) = some (.number value, others.length) := by
    simp only [constant?, dottedWord?, letter, if_true, Option.bind_eq_bind, Option.bind_some, dotted, held]
    rfl
  rw [token_word (notMem_signs_of_isName named), operator, constant]
  rfl

end Scan

/-! Literals. -/

/-- The token of a literal. -/
def Value.lexeme : Value → Lexeme
  | .text content => .text content
  | value => .number value

/-- Whether a literal is read back in some place: a number that is neither negative nor infinite, a truth value, or
a text that does not end in a backslash. No integer and no truth value can have a point right after it. -/
def Value.Literal (place : Place) : Value → Prop
  | .int number => 0 ≤ number ∧ place ≠ .dotted
  | .float number => ∃ value, Double.kind number = .finite value ∧ value.negative = false
  | .bool _ => place ≠ .dotted
  | .text content => content.getLast? ≠ some '\\'.toNat
  | _ => False

namespace Place

variable {place : Place} {first : CodePoint} {others text : Text} {lexeme : Lexeme} {lexemes : List Lexeme}

/-- Whether a text has these tokens in some place, whatever comes after it. -/
def Lexes (place : Place) (text : Text) (lexemes : List Lexeme) : Prop :=
  ∀ tail others, place.Before tail → Lexed (.standard {}) tail others →
    Lexed (.standard {}) (text ++ tail) (lexemes ++ others)

/-- A text that is one token. -/
theorem lexes_token (visible : Cursor.isBlank first = false) (noSlash : first ≠ '/'.toNat)
    (read : ∀ tail, place.Before tail →
      Scan.token (.standard {}) first (others ++ tail) = .ok (lexeme, others.length)) :
    place.Lexes (first :: others) [lexeme] := by
  intro tail lexemes before later
  refine @Lexed.token _ [] (others ++ tail) first lexeme others.length lexemes .nil ?_ (read tail before) ?_
  · rintro _ _ ⟨⟩
    exact ⟨visible, fun comment => noSlash comment.1⟩
  · rwa [List.drop_left]

theorem lexes_word (named : text.IsName) (free : text.Free place) : place.Lexes text [text.lexeme] := by
  obtain ⟨first, others, rfl⟩ : ∃ first others, text = first :: others := by cases named <;> exact ⟨_, _, rfl⟩
  have word := Scan.notMem_signs_of_isName named
  exact lexes_token (Scan.visible_of_notMem_signs word) (Scan.ne_of_notMem_signs word (by decide))
    fun tail before => Scan.token_of_word before named free

theorem lexes_numeral (numeral : Numeral)
    (parted : place = .dotted → numeral.fraction ≠ none ∨ numeral.exponent ≠ none) :
    place.Lexes numeral.spelling [.number numeral.value] := by
  obtain ⟨first, others, spelled⟩ := List.exists_cons_of_ne_nil numeral.spelling_ne_nil
  obtain ⟨-, visible, noSlash⟩ := numeral.plain_spelling (spelled ▸ List.mem_cons_self)
  rw [spelled]
  refine lexes_token visible noSlash fun tail before => ?_
  have ends : numeral.EndsBefore tail := by
    refine ⟨fun point next => (before.parted next).2.1, fun _ => before.noExponent, fun noFraction noExponent point => ?_⟩
    have dotted := (before.parted point).2.2.2.2.mp rfl
    exact (parted dotted).elim (fun some => some noFraction) fun some => some noExponent
  have written : numeral.spelling ++ tail = first :: (others ++ tail) := by rw [spelled, List.cons_append]
  have read : Scan.token (.standard {}) first (others ++ tail) = _ :=
    numeral.token_exact ends (fun point next => (before.parted next).2.2.1) written
  rwa [spelled] at read

theorem lexes_literal (heap : Heap) {value : Value} (literal : value.Literal place) :
    place.Lexes (Rendering.literal heap value) [value.lexeme] := by
  cases value with
  | int number =>
      obtain ⟨positive, parted⟩ := literal
      obtain ⟨size, rfl⟩ := Int.eq_ofNat_of_zero_le positive
      have digits (point : CodePoint) (member : point ∈ Text.ofNat size) : Text.isDigit point = true :=
        Scan.isDigit_ofNat size member
      let numeral : Numeral := ⟨Text.ofNat size, none, none, by simpa using digits, by simpa using Text.ofNat_ne_nil size⟩
      have value : numeral.value = .int size := by
        simp [numeral, Numeral.value, Numeral.decimal, Text.decimal_ofNat]
      have spelled : numeral.spelling = Text.ofNat size := by simp [numeral, Numeral.spelling]
      have lexes := lexes_numeral numeral fun dotted => absurd dotted parted
      rw [spelled, value] at lexes
      have written : Rendering.literal heap (.int size) = Text.ofNat size := by
        simp only [Rendering.literal]
        rw [if_neg (by simp)]
        rfl
      rwa [written]
  | float number =>
      obtain ⟨value, known, positive⟩ := literal
      obtain ⟨numeral, spelled, value, broken⟩ := Double.written known positive
      have lexes : place.Lexes _ _ := lexes_numeral numeral fun _ => broken
      rw [spelled, value] at lexes
      have written : Rendering.literal heap (.float number) = Text.ofFloat number :=
        if_neg (by simpa using Double.not_lt_zero known positive)
      rwa [written]
  | bool value =>
      have constant (first : CodePoint) (others : Text) (letter : Text.isLetter first = true)
          (goesOn : ∀ point ∈ others, Scan.isNamePart point = true)
          (noOperator : (Dialect.standard {}).isOperatorWord (first :: others) = false)
          (held : (Dialect.standard {}).constants.get? (first :: others) = some (.bool value)) :
          place.Lexes (first :: others) [.number (.bool value)] := by
        have word := Scan.notMem_signs_of_isLetter letter
        refine lexes_token (Scan.visible_of_notMem_signs word) (Scan.ne_of_notMem_signs word (by decide)) ?_
        exact fun tail before => Scan.token_of_constant before literal (.letter letter goesOn) noOperator held
      cases value with
      | true => exact constant 't'.toNat _ (by decide +kernel) (by decide +kernel) (by decide +kernel) rfl
      | false => exact constant 'f'.toNat _ (by decide +kernel) (by decide +kernel) (by decide +kernel) rfl
  | text content =>
      have lexes : place.Lexes ('"'.toNat :: (content.literalBody ++ ['"'.toNat])) [.text content] := by
        refine lexes_token rfl (by decide) fun tail _ => ?_
        rw [List.length_append]
        exact Scan.token_quoted (.inr rfl) (Scan.token_literal literal) tail
      exact lexes
  | _ => cases literal

end Place

end Formula
