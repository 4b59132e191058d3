import Formula.Proofs.Borders
import Formula.Proofs.Location
import Formula.Proofs.Spacing

/-!
Texts as tokens with gaps between them: what stands in a gap, where it ends, and that the tokens of a text
stay the same before another text, if its last comment is closed and the other text begins with a sign that
goes on with no token.
-/

namespace Formula

/-- Text that does not close a comment. -/
def Text.Unclosed (text : Text) : Prop := ∀ before after, text ≠ before ++ '*'.toNat :: '/'.toNat :: after

/-- Blanks and comments, each closed by the first mark after its opening one. -/
inductive Gap : Text → Prop
  | nil : Gap []
  | blank {point : CodePoint} {rest : Text} (blank : Cursor.isBlank point = true) (later : Gap rest) :
      Gap (point :: rest)
  | comment {body rest : Text} (unclosed : body.Unclosed) (later : Gap rest) :
      Gap ('/'.toNat :: '*'.toNat :: (body ++ '*'.toNat :: '/'.toNat :: rest))

/-- Whether a gap ends before a text. -/
def Text.Stops (text : Text) : Prop :=
  ∀ point rest, text = point :: rest →
    Cursor.isBlank point = false ∧ ¬(point = '/'.toNat ∧ rest.head? = some '*'.toNat)

theorem Text.unclosed_nil : Text.Unclosed [] := by
  intro before after same
  cases before <;> cases same

theorem Text.unclosed_cons {point : CodePoint} {rest : Text} :
    Text.Unclosed (point :: rest) ↔ rest.Unclosed ∧ ¬(point = '*'.toNat ∧ rest.head? = some '/'.toNat) := by
  constructor
  · intro unclosed
    refine ⟨fun before after same => unclosed (point :: before) after (by rw [same]; rfl), ?_⟩
    rintro ⟨rfl, closes⟩
    cases rest with
    | nil => cases closes
    | cons next rest =>
        cases closes
        exact unclosed [] rest rfl
  · rintro ⟨unclosed, open'⟩ before after same
    cases before with
    | nil =>
        cases same
        exact open' ⟨rfl, rfl⟩
    | cons first before =>
        cases same
        exact unclosed before after rfl

theorem Gap.append {first second : Text} (closed : Gap first) (later : Gap second) : Gap (first ++ second) := by
  induction closed with
  | nil => exact later
  | blank blank _ ih => exact .blank blank ih
  | comment unclosed _ ih => simpa using Gap.comment unclosed ih

namespace Cursor

/-- A comment ends where it is closed first. -/
theorem skipGap_closed {body : Text} (unclosed : body.Unclosed) (position : Nat) (rest : Text) :
    skipGap .inside position (body ++ '*'.toNat :: '/'.toNat :: rest) =
      skipGap .outside (position + body.length + 2) rest := by
  induction body generalizing position with
  | nil => rfl
  | cons point body ih =>
      obtain ⟨later, open'⟩ := Text.unclosed_cons.mp unclosed
      have goesOn : ¬(point = '*'.toNat ∧
          (body ++ '*'.toNat :: '/'.toNat :: rest).head? = some '/'.toNat) := by
        rintro ⟨star, slash⟩
        cases body with
        | nil => cases slash
        | cons next body => exact open' ⟨star, slash⟩
      rw [List.cons_append, skipGap]
      simp only [if_neg goesOn]
      rw [ih later, List.length_cons]
      congr 1
      omega

/-- What comes after the opening of a comment closes it or does not. -/
theorem closed_or_open (text : Text) :
    (∃ body rest, text = body ++ '*'.toNat :: '/'.toNat :: rest ∧ body.Unclosed) ∨ text.Unclosed := by
  induction text with
  | nil => exact .inr Text.unclosed_nil
  | cons point text ih =>
      by_cases closes : point = '*'.toNat ∧ text.head? = some '/'.toNat
      · obtain ⟨rfl, slash⟩ := closes
        obtain ⟨rest, rfl⟩ := List.head?_eq_some_iff.mp slash
        exact .inl ⟨[], rest, rfl, Text.unclosed_nil⟩
      · rcases ih with ⟨body, rest, rfl, unclosed⟩ | unclosed
        · refine .inl ⟨point :: body, rest, rfl, Text.unclosed_cons.mpr ⟨unclosed, fun both => closes ⟨both.1, ?_⟩⟩⟩
          obtain ⟨more, rfl⟩ := List.head?_eq_some_iff.mp both.2
          rfl
        · exact .inr (Text.unclosed_cons.mpr ⟨unclosed, closes⟩)

/-- A gap is skipped. -/
theorem skipGap_gap {gap : Text} (closed : Gap gap) (position : Nat) (rest : Text) :
    skipGap .outside position (gap ++ rest) = skipGap .outside (position + gap.length) rest := by
  induction closed generalizing position with
  | nil => rfl
  | blank blank later ih =>
      rw [List.cons_append, skipGap]
      simp only [blank, if_true]
      rw [ih, List.length_cons]
      congr 1
      omega
  | comment unclosed later ih =>
      rename_i body after
      change skipGap .inside (position + 2) ((body ++ '*'.toNat :: '/'.toNat :: after) ++ rest) = _
      rw [List.append_assoc, List.cons_append, List.cons_append, skipGap_closed unclosed, ih]
      congr 1
      simp only [List.length_cons, List.length_append]
      omega

/-- Nothing is skipped where a gap ends. -/
theorem skipGap_stops {text : Text} (stops : text.Stops) (position : Nat) :
    skipGap .outside position text = ⟨position, text⟩ := by
  cases text with
  | nil => rfl
  | cons point rest =>
      obtain ⟨visible, noComment⟩ := stops point rest rfl
      rw [skipGap]
      simp only [visible, Bool.false_eq_true, if_false, if_neg noComment]

end Cursor

/-- Every text begins with a gap, up to a place where it ends or to a comment that nothing closes. -/
theorem Gap.begins (text : Text) :
    (∃ gap rest : Text, text = gap ++ rest ∧ Gap gap ∧ rest.Stops) ∨
    ∃ gap body : Text, text = gap ++ '/'.toNat :: '*'.toNat :: body ∧ Gap gap ∧ body.Unclosed := by
  -- What follows a blank or a closed comment is shorter.
  induction same : text.length using Nat.strongRecOn generalizing text with
  | ind size ih =>
      have onward (first rest : Text) (shorter : rest.length < text.length) (whole : text = first ++ rest)
          (joins : ∀ {gap : Text}, Gap gap → Gap (first ++ gap)) :
          (∃ gap rest : Text, text = gap ++ rest ∧ Gap gap ∧ rest.Stops) ∨
          ∃ gap body : Text, text = gap ++ '/'.toNat :: '*'.toNat :: body ∧ Gap gap ∧ body.Unclosed := by
        subst whole
        rcases ih rest.length (same ▸ shorter) rest rfl with
          ⟨gap, after, rfl, closed, stops⟩ | ⟨gap, body, rfl, closed, unclosed⟩
        · exact .inl ⟨first ++ gap, after, (List.append_assoc _ _ _).symm, joins closed, stops⟩
        · exact .inr ⟨first ++ gap, body, (List.append_assoc _ _ _).symm, joins closed, unclosed⟩
      cases text with
      | nil => exact .inl ⟨[], [], rfl, .nil, nofun⟩
      | cons point rest =>
          by_cases blank : Cursor.isBlank point = true
          · exact onward [point] rest (Nat.lt_succ_self _) rfl (.blank blank)
          · by_cases opens : point = '/'.toNat ∧ rest.head? = some '*'.toNat
            · obtain ⟨rfl, star⟩ := opens
              obtain ⟨inner, rfl⟩ := List.head?_eq_some_iff.mp star
              rcases Cursor.closed_or_open inner with ⟨body, after, rfl, unclosed⟩ | unclosed
              · refine onward ('/'.toNat :: '*'.toNat :: (body ++ ['*'.toNat, '/'.toNat])) after ?_ ?_ ?_
                · simp only [List.length_cons, List.length_append]
                  omega
                · simp
                · intro gap later
                  simpa using Gap.comment unclosed later
              · exact .inr ⟨[], inner, rfl, .nil, unclosed⟩
            · refine .inl ⟨[], point :: rest, rfl, .nil, ?_⟩
              rintro _ _ ⟨⟩
              exact ⟨eq_false_of_ne_true blank, opens⟩

theorem Tokens.scan_broken {dialect : Dialect} {cursor : Cursor} {position offset : Nat} {first : CodePoint}
    {rest : Text} {cause : ParseCause} (skipped : cursor.skip = ⟨position, first :: rest⟩)
    (failed : Scan.token dialect first rest = .error (cause, offset)) :
    scan dialect cursor = .broken { cause := cause, position := position + offset } := by
  rw [scan]
  split
  · rename_i found
    rw [skipped] at found
    cases found
  · rename_i found
    rw [skipped] at found
    cases found
    rw [failed]

/-- A text that is tokens with gaps between them, all comments closed. -/
inductive Lexed (dialect : Dialect) : Text → List Lexeme → Prop
  | finish {gap : Text} (closed : Gap gap) : Lexed dialect gap []
  | token {gap rest : Text} {first : CodePoint} {lexeme : Lexeme} {size : Nat} {lexemes : List Lexeme}
      (closed : Gap gap) (stops : Text.Stops (first :: rest))
      (read : Scan.token dialect first rest = .ok (lexeme, size)) (later : Lexed dialect (rest.drop size) lexemes) :
      Lexed dialect (gap ++ first :: rest) (lexeme :: lexemes)

/-- A text whose last comment is still open at its end. -/
inductive EndsInComment (dialect : Dialect) : Text → Prop
  | here {gap body : Text} (closed : Gap gap) (unclosed : body.Unclosed) :
      EndsInComment dialect (gap ++ '/'.toNat :: '*'.toNat :: body)
  | later {gap rest : Text} {first : CodePoint} {lexeme : Lexeme} {size : Nat} (closed : Gap gap)
      (stops : Text.Stops (first :: rest)) (read : Scan.token dialect first rest = .ok (lexeme, size))
      (later : EndsInComment dialect (rest.drop size)) : EndsInComment dialect (gap ++ first :: rest)

namespace Lexed

variable {dialect : Dialect} {text : Text} {lexemes : List Lexeme}

theorem skip_gap {gap : Text} (closed : Gap gap) (rest : Text) (stops : rest.Stops) (position : Nat) :
    Cursor.skip ⟨position, gap ++ rest⟩ = ⟨position + gap.length, rest⟩ := by
  rw [Cursor.skip, Cursor.skipGap_gap closed, Cursor.skipGap_stops stops]

/-- Such a text has these tokens, wherever it stands. -/
theorem scan (lexed : Lexed dialect text lexemes) (position : Nat) :
    ∃ (tokens : List Token) (last : Nat), tokens.map Token.lexeme = lexemes ∧
      Tokens.scan dialect ⟨position, text⟩ = .lay tokens (.finish last) := by
  induction lexed generalizing position with
  | finish closed =>
      have skipped := skip_gap closed [] nofun position
      rw [List.append_nil] at skipped
      exact ⟨[], _, rfl, Tokens.scan_finish skipped⟩
  | token closed stops read later ih =>
      obtain ⟨tokens, last, spelled, scanned⟩ := ih _
      rename_i gap rest first lexeme size lexemes
      refine ⟨⟨lexeme, position + gap.length⟩ :: tokens, last, congrArg (lexeme :: ·) spelled, ?_⟩
      rw [Tokens.scan_token (skip_gap closed _ stops position) read, scanned]
      rfl

/-- A text that can be tokenized is such a text, unless its last comment is still open. -/
theorem of_unbroken (text : Text) (position : Nat)
    (unbroken : (Tokens.scan dialect ⟨position, text⟩).fault? = none) :
    (∃ lexemes, Lexed dialect text lexemes) ∨ EndsInComment dialect text := by
  induction same : text.length using Nat.strongRecOn generalizing text position with
  | ind size ih =>
      rcases Gap.begins text with ⟨gap, rest, rfl, closed, stops⟩ | ⟨gap, body, rfl, closed, unclosed⟩
      · cases rest with
        | nil => exact .inl ⟨[], by rw [List.append_nil]; exact .finish closed⟩
        | cons first rest =>
            have skipped := skip_gap closed _ stops position
            cases read : Scan.token dialect first rest with
            | error refusal =>
                rw [Tokens.scan_broken skipped read] at unbroken
                cases unbroken
            | ok found =>
                obtain ⟨lexeme, length⟩ := found
                rw [Tokens.scan_token skipped read] at unbroken
                have shorter : (rest.drop length).length < size := by
                  rw [← same, List.length_drop, List.length_append, List.length_cons]
                  omega
                rcases ih _ shorter (rest.drop length) _ unbroken rfl with ⟨lexemes, later⟩ | later
                · exact .inl ⟨lexeme :: lexemes, .token closed stops read later⟩
                · exact .inr (.later closed stops read later)
      · exact .inr (.here closed unclosed)

theorem stops_append {tail : Text} (parts : tail.Parts) {first : CodePoint} {rest : Text}
    (stops : Text.Stops (first :: rest)) : Text.Stops (first :: (rest ++ tail)) := by
  rintro _ _ ⟨⟩
  obtain ⟨visible, noComment⟩ := stops first rest rfl
  exact ⟨visible, fun comment => noComment ⟨comment.1, (parts.head_append '*'.toNat (by decide) rest).mp comment.2⟩⟩

theorem gap {gap : Text} (closed : Gap gap) (lexed : Lexed dialect text lexemes) :
    Lexed dialect (gap ++ text) lexemes := by
  cases lexed with
  | finish other => exact .finish (closed.append other)
  | token other stops read later =>
      rw [← List.append_assoc]
      exact .token (closed.append other) stops read later

/-- Two texts one after the other have the tokens of both, if the second begins with a parting sign. -/
theorem append (lexed : Lexed dialect text lexemes) {tail : Text} {others : List Lexeme} (parts : tail.Parts)
    (later : Lexed dialect tail others) : Lexed dialect (text ++ tail) (lexemes ++ others) := by
  induction lexed with
  | finish closed => exact later.gap closed
  | token closed stops read next ih =>
      rename_i gap rest first lexeme size lexemes
      rw [List.append_assoc, List.cons_append, List.cons_append]
      refine .token closed (stops_append parts stops) (Scan.token_append parts read) ?_
      rw [List.drop_append_of_le_length (Scan.token_fits read).within]
      exact ih

/-- A sign that is a token by itself, before a text. -/
theorem sign {first : CodePoint} {lexeme : Lexeme} (visible : Cursor.isBlank first = false)
    (noComment : first ≠ '/'.toNat) (read : ∀ rest, Scan.token dialect first rest = .ok (lexeme, 0))
    (later : Lexed dialect text lexemes) : Lexed dialect (first :: text) (lexeme :: lexemes) := by
  refine @token dialect [] text first lexeme 0 lexemes .nil ?_ (read text) later
  rintro _ _ ⟨⟩
  exact ⟨visible, fun comment => noComment comment.1⟩

theorem semicolon (later : Lexed dialect text lexemes) :
    Lexed dialect (';'.toNat :: text) (.semicolon :: lexemes) :=
  later.sign rfl (by decide) fun _ => rfl

theorem openParenthesis (later : Lexed dialect text lexemes) :
    Lexed dialect ('('.toNat :: text) (.openParenthesis :: lexemes) :=
  later.sign rfl (by decide) fun _ => rfl

theorem closeParenthesis (later : Lexed dialect text lexemes) :
    Lexed dialect (')'.toNat :: text) (.closeParenthesis :: lexemes) :=
  later.sign rfl (by decide) fun _ => rfl

theorem space (later : Lexed dialect text lexemes) : Lexed dialect (' '.toNat :: text) lexemes :=
  later.gap (.blank rfl .nil)

end Lexed

end Formula
