import Formula.Proofs.Gaps
import Formula.Program.Rendering

/-!
Texts in quotes: where they end, and that a text is read back from its literal. A quote after a backslash
does not close, whatever stands before the backslash, so a text that ends in a backslash has no literal
that ends.
-/

namespace Formula

namespace Text

/-- Whether every quote in a text follows a backslash; `previous` stands before the text. -/
def Guarded (quote previous : CodePoint) (text : Text) : Prop :=
  ∀ before after, text = before ++ quote :: after → before.getLastD previous = '\\'.toNat

/-- What stands between a quote and the next like one that follows no backslash. -/
structure Quoted (quote : CodePoint) (content : Text) : Prop where
  mark : quote = '\''.toNat ∨ quote = '"'.toNat
  guarded : content.Guarded quote quote
  free : content.getLastD quote ≠ '\\'.toNat

theorem getLastD_append (first second : Text) (previous : CodePoint) :
    (first ++ second).getLastD previous = second.getLastD (first.getLastD previous) := by
  induction first generalizing previous with
  | nil => rfl
  | cons point first ih => rw [List.cons_append, List.getLastD_cons, List.getLastD_cons, ih]

variable {quote previous : CodePoint} {text first second : Text}

theorem guarded_cons {point : CodePoint} :
    Guarded quote previous (point :: text) ↔
      (point = quote → previous = '\\'.toNat) ∧ text.Guarded quote point := by
  constructor
  · intro guarded
    refine ⟨fun same => guarded [] text (same ▸ rfl), fun before after same => ?_⟩
    have last := guarded (point :: before) after (congrArg (point :: ·) same)
    rwa [List.getLastD_cons] at last
  · rintro ⟨here, later⟩ before after same
    cases before with
    | nil =>
        cases same
        exact here rfl
    | cons other before =>
        cases same
        rw [List.getLastD_cons]
        exact later before after rfl

theorem Guarded.of_notMem (free : quote ∉ text) : text.Guarded quote previous := by
  rintro before after rfl
  exact absurd (List.mem_append_right before List.mem_cons_self) free

theorem Guarded.append (one : first.Guarded quote previous)
    (two : second.Guarded quote (first.getLastD previous)) : (first ++ second).Guarded quote previous := by
  induction first generalizing previous with
  | nil => exact two
  | cons point first ih =>
      obtain ⟨here, later⟩ := guarded_cons.mp one
      rw [List.getLastD_cons] at two
      exact guarded_cons.mpr ⟨here, ih later two⟩

end Text

namespace Scan

variable {dialect : Dialect} {quote previous : CodePoint} {text : Text} {size : Nat}

/-- The search for the closing quote goes past quotes that follow a backslash. -/
theorem closingQuote?_guarded (guarded : text.Guarded quote previous) (rest : Text) :
    closingQuote? quote previous (text ++ rest) =
      (closingQuote? quote (text.getLastD previous) rest).map (· + text.length) := by
  induction text generalizing previous with
  | nil => simp
  | cons point text ih =>
      obtain ⟨here, later⟩ := Text.guarded_cons.mp guarded
      -- A quote at this place follows a backslash, so the search goes on.
      have onward : ¬(point = quote ∧ previous ≠ '\\'.toNat) := fun closes => closes.2 (here closes.1)
      rw [List.cons_append, closingQuote?, if_neg onward, ih later, List.getLastD_cons, Option.map_map]
      rfl

theorem closingQuote?_guards (closes : closingQuote? quote previous text = some size) :
    Text.Guarded quote previous (text.take size) := by
  induction text generalizing previous size with
  | nil => cases closes
  | cons point text ih =>
      rw [closingQuote?] at closes
      split at closes
      · cases closes
        exact .of_notMem List.not_mem_nil
      · rename_i onward
        obtain ⟨smaller, later, rfl⟩ := Option.map_eq_some_iff.mp closes
        rw [List.take_succ_cons]
        refine Text.guarded_cons.mpr ⟨fun same => ?_, ih later⟩
        by_contra free
        exact onward ⟨same, free⟩

/-- What a quote opens is closed by the first like quote that follows no backslash. -/
theorem closingQuote?_quoted (mark : quote = '\''.toNat ∨ quote = '"'.toNat)
    (closes : closingQuote? quote quote text = some size) :
    ∃ content after, text = content ++ quote :: after ∧ content.length = size ∧ content.Quoted quote := by
  have guarded := closingQuote?_guards closes
  obtain ⟨content, after, rfl, rfl, free⟩ := closingQuote_found closes
  rw [List.take_left] at guarded
  refine ⟨content, after, rfl, rfl, mark, guarded, fun last => free ?_⟩
  rw [List.getLast?_cons, ← List.getLastD_eq_getLast?, last]

end Scan

/-! The literal of a text, point by point. -/

namespace Text

theorem hexDigit_isDigit {value : Nat} (small : value < 16) :
    Scan.radixDigit? 16 (hexDigit value) = some value := by
  revert value
  decide

theorem hexDigit_ne {value : Nat} (small : value < 16) :
    hexDigit value ≠ '"'.toNat ∧ hexDigit value ≠ '\\'.toNat := by
  revert value
  decide

theorem hex_four (point : CodePoint) :
    hex 4 point = [hexDigit (point / 4096 % 16), hexDigit (point / 256 % 16), hexDigit (point / 16 % 16),
      hexDigit (point % 16)] := by
  simp [hex, List.range_succ]

theorem fourDigits?_hex {point : Nat} (small : point < 65536) :
    Scan.fourDigits? (hex 4 point) = some point := by
  have digit (value : Nat) : Scan.radixDigit? 16 (hexDigit (value % 16)) = some (value % 16) :=
    hexDigit_isDigit (Nat.mod_lt value (by decide))
  simp only [Scan.fourDigits?, hex_four, List.filterMap_cons, List.filterMap_nil, digit, List.length_cons,
    List.length_nil, Reading.digitsValue, List.foldl_cons, List.foldl_nil]
  simp only [and_self, if_true, Option.some.injEq]
  change ((((0 * 16 + point / 4096 % 16) * 16 + point / 256 % 16) * 16 + point / 16 % 16) * 16 +
    point % 16 : Nat) = point
  omega

/-- How a code point is written in a literal: itself, or after a backslash a letter, itself or a number. -/
theorem literalPoint_cases (point : Nat) :
    (literalPoint point = [point] ∧ point ≠ '"'.toNat ∧ point ≠ '\\'.toNat) ∨
    (∃ letter, literalPoint point = ['\\'.toNat, letter] ∧ Scan.simpleEscape? letter = some point ∧
      (letter = '\\'.toNat ↔ point = '\\'.toNat)) ∨
    (literalPoint point = '\\'.toNat :: 'u'.toNat :: hex 4 point ∧ point < 65536 ∧ point ≠ '\\'.toNat) := by
  unfold literalPoint
  split_ifs with mark feed return' tab back form numeric
  · exact .inr (.inl ⟨point, rfl, by rcases mark with rfl | rfl <;> rfl, Iff.rfl⟩)
  · subst feed
    exact .inr (.inl ⟨'n'.toNat, rfl, rfl, by decide⟩)
  · subst return'
    exact .inr (.inl ⟨'r'.toNat, rfl, rfl, by decide⟩)
  · subst tab
    exact .inr (.inl ⟨'t'.toNat, rfl, rfl, by decide⟩)
  · subst back
    exact .inr (.inl ⟨'b'.toNat, rfl, rfl, by decide⟩)
  · subst form
    exact .inr (.inl ⟨'f'.toNat, rfl, rfl, by decide⟩)
  · have below : ' '.toNat < 65536 := by decide
    refine .inr (.inr ⟨rfl, ?_, fun same => mark (.inr same)⟩)
    rcases numeric with control | rfl | rfl
    · exact Nat.lt_trans control below
    · decide
    · decide
  · exact .inl ⟨rfl, fun same => mark (.inl same), fun same => mark (.inr same)⟩

theorem notMem_hex (point : CodePoint) : '"'.toNat ∉ hex 4 point := by
  have digit (value : Nat) : '"'.toNat ≠ hexDigit (value % 16) :=
    (hexDigit_ne (Nat.mod_lt value (by decide))).1.symm
  simp only [hex_four, List.mem_cons, List.not_mem_nil, digit, or_false, not_false_iff]

theorem literalPoint_guarded (point previous : CodePoint) :
    (literalPoint point).Guarded '"'.toNat previous := by
  rcases literalPoint_cases point with ⟨written, noQuote, -⟩ | ⟨letter, written, -⟩ | ⟨written, -⟩
  · rw [written]
    exact .of_notMem fun member => noQuote (List.mem_singleton.mp member).symm
  · rw [written]
    exact guarded_cons.mpr ⟨nofun, guarded_cons.mpr ⟨fun _ => rfl, .of_notMem List.not_mem_nil⟩⟩
  · rw [written]
    refine .of_notMem fun member => notMem_hex point ?_
    simpa using member

theorem literalPoint_last (point previous : CodePoint) :
    (literalPoint point).getLastD previous = '\\'.toNat ↔ point = '\\'.toNat := by
  rcases literalPoint_cases point with ⟨written, -, other⟩ | ⟨letter, written, -, same⟩ | ⟨written, -, other⟩
  · rw [written]
    rfl
  · rw [written]
    exact same
  · have last : (literalPoint point).getLastD previous = hexDigit (point % 16) := by
      rw [written, hex_four]
      rfl
    rw [last]
    exact iff_of_false (hexDigit_ne (Nat.mod_lt point (by decide))).2 other

/-- What is written between the quotes of a literal. -/
def literalBody (content : Text) : Text := content.flatMap literalPoint

theorem literalBody_cons (point : CodePoint) (content : Text) :
    literalBody (point :: content) = literalPoint point ++ content.literalBody := List.flatMap_cons

theorem literal_eq (content : Text) :
    content.literal = '"'.toNat :: (content.literalBody ++ ['"'.toNat]) := rfl

theorem literalBody_guarded (content : Text) (previous : CodePoint) :
    content.literalBody.Guarded '"'.toNat previous := by
  induction content generalizing previous with
  | nil => exact .of_notMem List.not_mem_nil
  | cons point content ih => exact (literalPoint_guarded point previous).append (ih _)

/-- A text and its literal both end in a backslash, or neither does. -/
theorem literalBody_last (content : Text) {previous other : CodePoint}
    (same : previous = '\\'.toNat ↔ other = '\\'.toNat) :
    content.literalBody.getLastD previous = '\\'.toNat ↔ content.getLastD other = '\\'.toNat := by
  induction content generalizing previous other with
  | nil => exact same
  | cons point content ih =>
      rw [literalBody_cons, getLastD_append, List.getLastD_cons]
      exact ih (literalPoint_last point previous)

end Text

namespace Scan

variable {dialect : Dialect} {content : Text}

/-- The escapes of a literal are read back, one code point after the other. The offsets matter for failures
alone. -/
theorem unescape_literalPoint (offset : Nat) (point : CodePoint) (rest : Text) :
    ∃ later, unescape offset (Text.literalPoint point ++ rest) = (unescape later rest).map (point :: ·) := by
  rcases Text.literalPoint_cases point with
    ⟨written, -, other⟩ | ⟨letter, written, simple, -⟩ | ⟨written, small, -⟩
  · refine ⟨offset + 1, ?_⟩
    rw [written, List.singleton_append, unescape.eq_def]
    simp only [ne_eq, other, not_false_iff, if_true]
  · refine ⟨offset + 2, ?_⟩
    rw [written, List.cons_append, List.singleton_append, unescape.eq_def]
    simp only [ne_eq, not_true_eq_false, if_false, simple]
  · refine ⟨offset + 6, ?_⟩
    have letter : simpleEscape? 'u'.toNat = none := rfl
    have read := Text.fourDigits?_hex small
    rw [Text.hex_four] at written read
    rw [written]
    simp only [List.cons_append, List.nil_append]
    rw [unescape.eq_def]
    simp only [ne_eq, not_true_eq_false, if_false, letter, read]

theorem unescape_literalBody (offset : Nat) (content : Text) :
    unescape offset content.literalBody = .ok content := by
  induction content generalizing offset with
  | nil => rfl
  | cons point content ih =>
      obtain ⟨later, read⟩ := unescape_literalPoint offset point (Text.literalBody content)
      rw [Text.literalBody_cons, read, ih]
      rfl

/-- The literal of a text that does not end in a backslash is read back as that text. -/
theorem token_literal (free : content.getLast? ≠ some '\\'.toNat) :
    token dialect '"'.toNat (content.literalBody ++ ['"'.toNat]) =
      .ok (.text content, content.literalBody.length + 1) := by
  have last : content.literalBody.getLastD '"'.toNat ≠ '\\'.toNat := by
    rw [ne_eq, Text.literalBody_last content (Iff.refl ('"'.toNat = '\\'.toNat)), List.getLastD_eq_getLast?]
    cases ends : content.getLast? with
    | none => decide
    | some point => exact fun same => free (ends.trans (congrArg some same))
  have closes : closingQuote? '"'.toNat '"'.toNat (content.literalBody ++ ['"'.toNat]) =
      some content.literalBody.length := by
    rw [closingQuote?_guarded (Text.literalBody_guarded content _), closingQuote?, if_pos ⟨rfl, last⟩,
      Option.map_some, Nat.zero_add]
  obtain ⟨radix, number, operator, -⟩ :=
    @quote_begins dialect '"'.toNat (.inr rfl) (content.literalBody ++ ['"'.toNat])
  have text : text? '"'.toNat (content.literalBody ++ ['"'.toNat]) =
      some (.ok (.text content, content.literalBody.length + 1)) := by
    rw [text?, if_pos (.inr rfl), closes, Option.map_some, List.take_left, unescape_literalBody]
    rfl
  simp only [token, radix, number, operator, text]
  rfl

/-- Nothing closes the literal of a text that ends in a backslash. -/
theorem token_literal_open (last : content.getLast? = some '\\'.toNat) :
    token dialect '"'.toNat (content.literalBody ++ ['"'.toNat]) =
      .error (.unknownCharacter '"'.toNat, 0) := by
  have last : content.literalBody.getLastD '"'.toNat = '\\'.toNat := by
    rw [Text.literalBody_last content (Iff.refl ('"'.toNat = '\\'.toNat)), List.getLastD_eq_getLast?, last]
    rfl
  have open' : closingQuote? '"'.toNat '"'.toNat (content.literalBody ++ ['"'.toNat]) = none := by
    rw [closingQuote?_guarded (Text.literalBody_guarded content _), closingQuote?, if_neg (fun both => both.2 last)]
    rfl
  obtain ⟨radix, number, operator, sign, word, constant, name⟩ :=
    @quote_begins dialect '"'.toNat (.inr rfl) (content.literalBody ++ ['"'.toNat])
  have text : text? '"'.toNat (content.literalBody ++ ['"'.toNat]) = none := by
    rw [text?, if_pos (.inr rfl), open']
    rfl
  simp only [token, radix, number, operator, text, sign, word, constant, name]
  rfl

end Scan

section

variable {dialect : Dialect} {content : Text}

theorem skip_quote (rest : Text) : Cursor.skip ⟨0, '"'.toNat :: rest⟩ = ⟨0, '"'.toNat :: rest⟩ := rfl

theorem tokenize_literal (free : content.getLast? ≠ some '\\'.toNat) :
    tokenize dialect ('"'.toNat :: (content.literalBody ++ ['"'.toNat])) =
      .ok [⟨.text content, 0⟩, ⟨.endOfText, ('"'.toNat :: (content.literalBody ++ ['"'.toNat])).length⟩] := by
  have rest : (content.literalBody ++ ['"'.toNat]).drop (content.literalBody.length + 1) = [] :=
    List.drop_of_length_le (by simp)
  have finished : Tokens.scan dialect ⟨0 + (content.literalBody.length + 1) + 1, []⟩ =
      .finish (0 + (content.literalBody.length + 1) + 1) := Tokens.scan_finish rfl
  rw [tokenize, Tokens.ofText, Tokens.scan_token (skip_quote _) (Scan.token_literal free), rest, finished]
  simp [Tokens.toList, Except.map, Except.mapError]

theorem tokenize_literal_open (last : content.getLast? = some '\\'.toNat) :
    ∃ failure, tokenize dialect ('"'.toNat :: (content.literalBody ++ ['"'.toNat])) = .error failure ∧
      failure.isLexical = true := by
  rw [tokenize, Tokens.ofText, Tokens.scan_broken (skip_quote _) (Scan.token_literal_open last)]
  exact ⟨_, rfl, rfl⟩

end

/-- The source of a text that does not end in a backslash is read back as that text. The source of another
one is broken. -/
theorem literal_reads_back (dialect : Dialect) (heap : Heap) (content : Text) :
    ∃ source, Program.render heap [.literal (.text content)] = .ok source ∧
      (content.getLast? ≠ some '\\'.toNat ↔
        tokenize dialect source = .ok [⟨.text content, 0⟩, ⟨.endOfText, source.length⟩]) ∧
      (content.getLast? = some '\\'.toNat ↔
        ∃ failure, tokenize dialect source = .error failure ∧ failure.isLexical = true) := by
  refine ⟨content.literal, rfl, ?_⟩
  rw [Text.literal_eq]
  by_cases last : content.getLast? = some '\\'.toNat
  · obtain ⟨failure, broken, lexical⟩ := @tokenize_literal_open dialect content last
    rw [broken]
    exact ⟨iff_of_false (fun free => free last) nofun, iff_of_true last ⟨failure, rfl, lexical⟩⟩
  · have read := @tokenize_literal dialect content last
    refine ⟨iff_of_true last read, iff_of_false last fun ⟨failure, failed, _⟩ => ?_⟩
    rw [read] at failed
    cases failed

end Formula
