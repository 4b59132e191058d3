import Formula.Proofs.Reading
import Formula.Proofs.Scanning
import Formula.Proofs.Table
import Mathlib.Tactic.SplitIfs

/-!
What can start at a place of a text: the tokens that a dialect knows, none longer than the text, or what
is wrong with the characters there.
-/

namespace Formula

/-- The tokens that a dialect can read before the end of a text. -/
inductive Lexeme.Possible (dialect : Dialect) : Lexeme → Prop
  | integer (number : Int) : Possible dialect (.number (.int number))
  | float (number : Float) : Possible dialect (.number (.float number))
  | constant {word : Text} {value : Value} (held : dialect.constants.get? word = some value) :
      Possible dialect (.number value)
  | operator {symbol : Text} (enabled : dialect.enables symbol = true) : Possible dialect (.operator symbol)
  | text (content : Text) : Possible dialect (.text content)
  | openParenthesis : Possible dialect .openParenthesis
  | closeParenthesis : Possible dialect .closeParenthesis
  | openBracket (enabled : dialect.enables Term.indexSymbol = true) : Possible dialect .openBracket
  | closeBracket (enabled : dialect.enables Term.indexSymbol = true) : Possible dialect .closeBracket
  | comma : Possible dialect .comma
  | semicolon : Possible dialect .semicolon
  | name (word : Text) : Possible dialect (.name word)

/-- What is wrong with a bad escape, from the code point after its backslash on. -/
inductive BadEscape : ParseCause → Text → Prop
  | unknown {letter : CodePoint} (rest : Text) (unknown : Scan.simpleEscape? letter = none)
      (other : letter ≠ 'u'.toNat) : BadEscape (.unknownEscape [letter]) (letter :: rest)
  | digits {digits : Text} (rest : Text) (short : digits.length ≤ 4) (bad : Scan.fourDigits? digits = none) :
      BadEscape (.badCodePoint digits) ('u'.toNat :: (digits ++ rest))

theorem BadEscape.before {cause : ParseCause} {rest : Text} (bad : BadEscape cause rest) (after : Text) :
    BadEscape cause (rest ++ after) := by
  cases bad with
  | unknown rest unknown other => exact .unknown (rest ++ after) unknown other
  | digits rest short bad =>
      rw [List.cons_append, List.append_assoc]
      exact .digits (rest ++ after) short bad

/-- What is wrong with a text at its first character: no token starts with it, or it is the backslash of a
bad escape. -/
inductive Offends (dialect : Dialect) : ParseCause → Text → Prop
  | character {point : CodePoint} {rest : Text}
      (unknown : Scan.token dialect point rest = .error (.unknownCharacter point, 0)) :
      Offends dialect (.unknownCharacter point) (point :: rest)
  | escape {cause : ParseCause} {rest : Text} (bad : BadEscape cause rest) :
      Offends dialect cause ('\\'.toNat :: rest)

namespace Scan

variable {dialect : Dialect} {first : CodePoint} {rest : Text} {found : Found}

/-- The scanner that found a token. -/
inductive Scanned (dialect : Dialect) (first : CodePoint) (rest : Text) (found : Found) : Prop
  | radix (came : radixInteger? first rest = some found)
  | number (came : number? first rest = some found)
  | operator (came : operator? dialect first rest = some found)
  | text (came : text? first rest = some (.ok found))
  | punctuation (came : punctuation? dialect first = some found)
  | wordOperator (came : wordOperator? dialect first rest = some found)
  | constant (came : constant? dialect first rest = some found)
  | name (came : name? first rest = some found)

theorem token_scanned (came : token dialect first rest = .ok found) : Scanned dialect first rest found := by
  unfold token at came
  split at came
  · rename_i known
    cases came
    simp only [Option.orElse_eq_orElse, Option.orElse_eq_or, Option.or_eq_some_iff] at known
    rcases known with digits | ⟨-, digits | ⟨-, sign⟩⟩
    · exact .radix digits
    · exact .number digits
    · exact .operator sign
  · split at came
    · rename_i quoted
      exact .text (came ▸ quoted)
    · split at came
      · rename_i known
        cases came
        simp only [Option.orElse_eq_orElse, Option.orElse_eq_or, Option.or_eq_some_iff] at known
        rcases known with sign | ⟨-, word | ⟨-, constant | ⟨-, name⟩⟩⟩
        · exact .punctuation sign
        · exact .wordOperator word
        · exact .constant constant
        · exact .name name
      · cases came

/-- A token that the dialect can read and that the text holds as a whole. -/
structure Fits (dialect : Dialect) (rest : Text) (found : Found) : Prop where
  possible : found.1.Possible dialect
  within : found.2 ≤ rest.length

theorem fits_radixInteger (came : radixInteger? first rest = some found) : Fits dialect rest found := by
  unfold radixInteger? at came
  split at came
  · split at came
    · cases came
    · rename_i marker body
      rw [Option.bind_eq_bind, Option.bind_eq_some_iff] at came
      obtain ⟨base, -, came⟩ := came
      simp only at came
      split at came
      · cases came
      · cases came
        exact ⟨.integer _, Nat.succ_le_succ (List.takeWhile_sublist _).length_le⟩
  · cases came

theorem fits_number (came : number? first rest = some found) : Fits dialect rest found := by
  unfold number? at came
  simp only [Option.bind_eq_bind, Option.bind_eq_some_iff, Option.some.injEq] at came
  obtain ⟨⟨number, after⟩, -, rfl⟩ := came
  refine ⟨?_, ?_⟩
  · simp only
    split
    · exact .integer _
    · exact .float _
  · simp only [List.length_cons]
    omega

theorem signs_within {symbol : Text} (came : signs? first rest = some symbol) :
    symbol.length ≤ rest.length + 1 := by
  have filled {point : CodePoint} (starts : rest.head? = some point) : 1 ≤ rest.length := by
    cases rest with
    | nil => cases starts
    | cons point rest => simp
  unfold signs? at came
  simp only at came
  split_ifs at came with single multiplication opening equals bars
  · cases came
    simp
  · cases came
    exact Nat.succ_le_succ (Nat.zero_le _)
  · cases came
    exact Nat.succ_le_succ (filled equals)
  · cases came
    simp
  · cases came
    exact Nat.succ_le_succ (filled bars.2)

theorem fits_operator (came : operator? dialect first rest = some found) : Fits dialect rest found := by
  unfold operator? at came
  simp only [Option.bind_eq_bind, Option.bind_eq_some_iff] at came
  obtain ⟨symbol, signs, came⟩ := came
  have short := signs_within signs
  split at came
  · rename_i enabled
    cases came
    exact ⟨.operator enabled, by simp only; omega⟩
  · cases came

/-- The closing quote follows the text between the quotes, and no backslash. -/
theorem closingQuote_found {quote previous : CodePoint} {text : Text} {size : Nat}
    (closes : closingQuote? quote previous text = some size) :
    ∃ content after, text = content ++ quote :: after ∧ content.length = size ∧
      (previous :: content).getLast? ≠ some '\\'.toNat := by
  induction text generalizing previous size with
  | nil => cases closes
  | cons point text ih =>
      rw [closingQuote?] at closes
      split at closes
      · rename_i here
        cases closes
        obtain ⟨rfl, free⟩ := here
        exact ⟨[], text, rfl, rfl, by simpa using free⟩
      · obtain ⟨smaller, later, rfl⟩ := Option.map_eq_some_iff.mp closes
        obtain ⟨content, after, rfl, rfl, free⟩ := ih later
        exact ⟨point :: content, after, rfl, rfl, by rwa [List.getLast?_cons_cons]⟩

theorem fits_text (came : text? first rest = some (.ok found)) : Fits dialect rest found := by
  unfold text? at came
  split at came
  · simp only [Option.map_eq_some_iff] at came
    obtain ⟨size, closes, came⟩ := came
    obtain ⟨content, after, rfl, rfl, -⟩ := closingQuote_found closes
    cases read : unescape 1 ((content ++ first :: after).take content.length) with
    | error fault =>
        rw [read] at came
        cases came
    | ok content =>
        rw [read] at came
        cases came
        exact ⟨.text content, by simp⟩
  · cases came

theorem fits_punctuation (came : punctuation? dialect first = some found) : Fits dialect rest found := by
  unfold punctuation? at came
  split_ifs at came with opening closing openBracket closeBracket comma semicolon
  · cases came
    exact ⟨.openParenthesis, Nat.zero_le _⟩
  · cases came
    exact ⟨.closeParenthesis, Nat.zero_le _⟩
  · cases came
    exact ⟨.openBracket openBracket.2, Nat.zero_le _⟩
  · cases came
    exact ⟨.closeBracket closeBracket.2, Nat.zero_le _⟩
  · cases came
    exact ⟨.comma, Nat.zero_le _⟩
  · cases came
    exact ⟨.semicolon, Nat.zero_le _⟩

theorem word_within {word : Text} (came : word? first rest = some word) : word.length - 1 ≤ rest.length := by
  unfold word? at came
  split at came
  · cases came
    exact (List.takeWhile_sublist _).length_le
  · cases came

theorem fits_wordOperator (came : wordOperator? dialect first rest = some found) : Fits dialect rest found := by
  unfold wordOperator? at came
  simp only [Option.bind_eq_bind, Option.bind_eq_some_iff] at came
  obtain ⟨word, taken, came⟩ := came
  split at came
  · rename_i known
    cases came
    exact ⟨.operator (Bool.and_eq_true_iff.mp known).2, word_within taken⟩
  · cases came

theorem dottedWord_within {word : Text} (came : dottedWord? first rest = some word) :
    word.length - 1 ≤ rest.length := by
  unfold dottedWord? at came
  split at came
  · cases came
    exact (List.takeWhile_sublist _).length_le
  · cases came

theorem fits_constant (came : constant? dialect first rest = some found) : Fits dialect rest found := by
  unfold constant? at came
  simp only [Option.bind_eq_bind, Option.bind_eq_some_iff, Option.some.injEq] at came
  obtain ⟨word, taken, value, held, rfl⟩ := came
  exact ⟨.constant held, dottedWord_within taken⟩

theorem fits_name (came : name? first rest = some found) : Fits dialect rest found := by
  unfold name? at came
  simp only at came
  split at came
  · cases came
    exact ⟨.name _, (List.takeWhile_sublist _).length_le⟩
  · cases came

/-- Every token that is found is one that the dialect knows, and the text holds it as a whole. -/
theorem token_fits (came : token dialect first rest = .ok found) : Fits dialect rest found := by
  cases token_scanned came with
  | radix came => exact fits_radixInteger came
  | number came => exact fits_number came
  | operator came => exact fits_operator came
  | text came => exact fits_text came
  | punctuation came => exact fits_punctuation came
  | wordOperator came => exact fits_wordOperator came
  | constant came => exact fits_constant came
  | name came => exact fits_name came

/-- A bad escape somewhere in a text, whose start is reported from an offset on. -/
def Misspelled (offset : Nat) (text : Text) (cause : ParseCause) (place : Nat) : Prop :=
  ∃ before after, text = before ++ '\\'.toNat :: after ∧ place = offset + before.length ∧ BadEscape cause after

variable {offset place : Nat} {text : Text} {cause : ParseCause}

theorem Misspelled.behind (read : Text) (later : Misspelled (offset + read.length) text cause place) :
    Misspelled offset (read ++ text) cause place := by
  obtain ⟨before, after, rfl, rfl, bad⟩ := later
  exact ⟨read ++ before, after, (List.append_assoc _ _ _).symm, by rw [List.length_append]; omega, bad⟩

theorem error_of_map {α β ε : Type} {change : α → β} {read : Except ε α} {fault : ε}
    (failed : read.map change = .error fault) : read = .error fault := by
  cases read with
  | error other =>
      cases failed
      rfl
  | ok result => cases failed

theorem getLast?_ne_append {point : CodePoint} (read : Text) (free : (read ++ text).getLast? ≠ some point) :
    text.getLast? ≠ some point := by
  intro last
  exact free (by rw [List.getLast?_append, last, Option.some_or])

/-- A text that does not end in a backslash and cannot be unescaped has a bad escape at the place that is
reported. -/
theorem unescape_misspelled (free : text.getLast? ≠ some '\\'.toNat)
    (failed : unescape offset text = .error (cause, place)) : Misspelled offset text cause place := by
  fun_induction unescape offset text with
  | case1 => cases failed
  | case2 offset point rest ordinary ih =>
      exact Misspelled.behind [point] (ih (getLast?_ne_append [point] free) (error_of_map failed))
  | case3 offset point backslash =>
      exact absurd (by rw [List.getLast?_singleton, Decidable.not_not.mp backslash]) free
  | case4 offset point backslash letter more value known ih =>
      exact Misspelled.behind [point, letter] (ih (getLast?_ne_append [point, letter] free) (error_of_map failed))
  | case5 offset point backslash letter more unknown other =>
      cases failed
      exact ⟨[], _, by rw [Decidable.not_not.mp backslash]; rfl, rfl, .unknown more unknown other⟩
  | case6 offset point backslash letter unknown mark a b c d after value known ih =>
      exact Misspelled.behind [point, letter, a, b, c, d] (ih (getLast?_ne_append [point, letter, a, b, c, d] free) (error_of_map failed))
  | case7 offset point backslash letter unknown mark a b c d after bad =>
      cases failed
      refine ⟨[], _, by rw [Decidable.not_not.mp backslash]; rfl, rfl, ?_⟩
      rw [Decidable.not_not.mp mark]
      exact .digits after (Nat.le_refl 4) bad
  | case8 offset point backslash letter unknown mark digits few =>
      cases failed
      have short : digits.length < 4 := by
        rcases digits with _ | ⟨a, _ | ⟨b, _ | ⟨c, _ | ⟨d, after⟩⟩⟩⟩
        · simp
        · simp
        · simp
        · simp
        · exact (few a b c d after rfl).elim
      refine ⟨[], _, by rw [Decidable.not_not.mp backslash]; rfl, rfl, ?_⟩
      have bad : fourDigits? digits = none := by
        rw [fourDigits?, if_neg (fun full => by omega)]
      rw [Decidable.not_not.mp mark]
      simpa using BadEscape.digits [] (by omega) bad

/-- Where no token is found, the characters are at fault at the place that is reported, which the text
holds. -/
theorem token_offends (failed : token dialect first rest = .error (cause, place)) :
    place ≤ rest.length ∧ Offends dialect cause ((first :: rest).drop place) := by
  have whole := failed
  unfold token at failed
  split at failed
  · cases failed
  · split at failed
    · rename_i quoted
      unfold text? at quoted
      split at quoted
      · obtain ⟨size, closes, came⟩ := Option.map_eq_some_iff.mp quoted
        obtain ⟨content, after, rfl, rfl, free⟩ := closingQuote_found closes
        rw [List.take_left, failed] at came
        obtain ⟨before, bad, rfl, rfl, misspelled⟩ :=
          unescape_misspelled (getLast?_ne_append [first] free) (error_of_map came)
        refine ⟨by simp only [List.length_append, List.length_cons]; omega, ?_⟩
        have place : (first :: (before ++ '\\'.toNat :: bad ++ first :: after)).drop (1 + before.length) =
            '\\'.toNat :: (bad ++ first :: after) := by
          rw [Nat.add_comm, List.drop_succ_cons, List.append_assoc, List.drop_left, List.cons_append]
        rw [place]
        exact .escape (misspelled.before _)
      · cases quoted
    · split at failed
      · cases failed
      · cases failed
        exact ⟨Nat.zero_le _, .character whole⟩

end Scan

/-- What holds of every token that a dialect can read holds of the tokens of a text. -/
theorem Tokens.all_ofText {dialect : Dialect} {holds : Lexeme → Prop}
    (tokens : ∀ lexeme : Lexeme, lexeme.Possible dialect → holds lexeme) (source : Text) :
    (Tokens.ofText dialect source).All holds := by
  have within (bound : Nat) (cursor : Cursor) : (scanWithin dialect bound cursor).All holds := by
    induction bound generalizing cursor with
    | zero => trivial
    | succ bound ih =>
        rw [scanWithin]
        split
        · trivial
        · split
          · trivial
          · rename_i taken
            exact ⟨tokens _ (Scan.token_fits taken).possible, ih _⟩
  rw [ofText, scan_eq_scanWithin dialect source.length ⟨0, source⟩ (Nat.le_refl _)]
  exact within _ _

end Formula
