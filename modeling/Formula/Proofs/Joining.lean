import Formula.Proofs.Covering
import Formula.Proofs.Grouping

/-!
Two texts with blanks between them have the tokens of the first and those of the second, as far on as the
second begins. What the second text fails with, both fail with.
-/

namespace Formula

/-- A token as far on as a distance. -/
def Token.shift (distance : Nat) (token : Token) : Token :=
  { token with position := token.position + distance }

/-- A fault as far on as a distance. -/
def ParseFault.shift (distance : Nat) (fault : ParseFault) : ParseFault :=
  { fault with position := fault.position + distance }

def Tokens.shift (distance : Nat) : Tokens → Tokens
  | .finish position => .finish (position + distance)
  | .broken fault => .broken (fault.shift distance)
  | .cons token rest => .cons (token.shift distance) (rest.shift distance)

namespace Cursor

theorem skipGap_shift (part : GapPart) (position distance : Nat) (text : Text) :
    skipGap part (position + distance) text =
      ⟨(skipGap part position text).position + distance, (skipGap part position text).rest⟩ := by
  induction text generalizing part position with
  | nil => rfl
  | cons point rest ih =>
      have onward (part : GapPart) := ih part (position + 1)
      simp only [Nat.add_right_comm position 1 distance] at onward
      cases part with
      | opening => exact onward .inside
      | closing => exact onward .outside
      | inside =>
          simp only [skipGap]
          split
          · exact onward .closing
          · exact onward .inside
      | outside =>
          simp only [skipGap]
          split
          · exact onward .outside
          · split
            · exact onward .opening
            · rfl

end Cursor

namespace Tokens

variable {dialect : Dialect}

/-- What is skipped does not matter for the tokens. -/
theorem scan_congr {cursor other : Cursor} (same : cursor.skip = other.skip) :
    scan dialect cursor = scan dialect other := by
  cases skipped : other.skip with
  | mk position rest =>
      rw [skipped] at same
      cases rest with
      | nil => rw [scan_finish same, scan_finish skipped]
      | cons first rest =>
          cases read : Scan.token dialect first rest with
          | error refusal => rw [scan_broken same read, scan_broken skipped read]
          | ok found => rw [scan_token same read, scan_token skipped read]

/-- The tokens of a text are the same wherever it stands, but for their positions. -/
theorem scan_shift (distance : Nat) (cursor : Cursor) :
    scan dialect ⟨cursor.position + distance, cursor.rest⟩ = (scan dialect cursor).shift distance := by
  have skip (cursor : Cursor) : Cursor.skip ⟨cursor.position + distance, cursor.rest⟩ =
      ⟨cursor.skip.position + distance, cursor.skip.rest⟩ := Cursor.skipGap_shift .outside _ _ _
  fun_induction scan dialect cursor with
  | case1 cursor position skipped =>
      have moved := skip cursor
      rw [skipped] at moved
      exact scan_finish moved
  | case2 cursor position first rest skipped cause offset failed =>
      have moved := skip cursor
      rw [skipped] at moved
      rw [scan_broken moved failed, shift, ParseFault.shift, Nat.add_right_comm]
  | case3 cursor position first rest skipped lexeme size read ih =>
      have moved := skip cursor
      rw [skipped] at moved
      rw [scan_token moved read, shift, ← ih, Token.shift]
      simp only [Nat.add_right_comm _ distance]

theorem toList_shift (distance : Nat) (tokens : Tokens) :
    (tokens.shift distance).toList =
      (tokens.toList.map (List.map (Token.shift distance))).mapError (ParseFault.shift distance) := by
  induction tokens with
  | finish position => rfl
  | broken fault => rfl
  | cons token rest ih =>
      rw [shift, toList, toList, ih]
      cases rest.toList <;> rfl

end Tokens

namespace Lexed

variable {dialect : Dialect} {text tail : Text} {lexemes : List Lexeme}

/-- The tokens of a text stay the same before another text that begins with a parting sign, and those of the
other text come after them. -/
theorem scan_append (lexed : Lexed dialect text lexemes) (parts : tail.Parts) (position : Nat) :
    ∃ tokens, Tokens.scan dialect ⟨position, text⟩ = .lay tokens (.finish (position + text.length)) ∧
      Tokens.scan dialect ⟨position, text ++ tail⟩ =
        .lay tokens (.scan dialect ⟨position + text.length, tail⟩) := by
  induction lexed generalizing position with
  | finish closed =>
      rename_i gap
      have skipped := skip_gap closed [] nofun position
      rw [List.append_nil] at skipped
      exact ⟨[], Tokens.scan_finish skipped, Tokens.scan_congr (Cursor.skipGap_gap closed position tail)⟩
  | token closed stops read later ih =>
      rename_i gap rest first lexeme size lexemes
      have within := (Scan.token_fits read).within
      obtain ⟨tokens, alone, joined⟩ := ih (position + gap.length + size + 1)
      have length : position + gap.length + size + 1 + (rest.drop size).length =
          position + (gap ++ first :: rest).length := by
        simp only [List.length_drop, List.length_append, List.length_cons]
        omega
      rw [length] at alone joined
      refine ⟨⟨lexeme, position + gap.length⟩ :: tokens, ?_, ?_⟩
      · rw [Tokens.scan_token (skip_gap closed _ stops position) read, alone, Tokens.lay_cons]
      · rw [List.append_assoc, List.cons_append,
          Tokens.scan_token (skip_gap closed _ (stops_append parts stops) position) (Scan.token_append parts read),
          List.drop_append_of_le_length within, joined, Tokens.lay_cons]

end Lexed

theorem Gap.of_blanks {blanks : Text} (blank : ∀ point ∈ blanks, Cursor.isBlank point = true) : Gap blanks := by
  induction blanks with
  | nil => exact .nil
  | cons point blanks ih =>
      exact .blank (blank point List.mem_cons_self) (ih fun other among => blank other (List.mem_cons_of_mem _ among))

/-- A blank parts tokens. -/
theorem Text.Parts.of_blanks {blanks : Text} (filled : blanks ≠ [])
    (blank : ∀ point ∈ blanks, Cursor.isBlank point = true) (text : Text) : (blanks ++ text).Parts := by
  cases blanks with
  | nil => exact absurd rfl filled
  | cons point blanks =>
      rintro _ _ ⟨⟩
      have kinds := blank point List.mem_cons_self
      simp only [Cursor.isBlank, Bool.or_eq_true, beq_iff_eq] at kinds
      rcases kinds with ((rfl | rfl) | rfl) | rfl <;> decide

/-- Two texts with blanks between them have the tokens of both. If the second is broken, both together are
broken in the same way, as far on as the second begins. -/
theorem tokenize_joined {dialect : Dialect} {first blanks second : Text} {tokens : List Token}
    (came : tokenize dialect first = .ok tokens) (closed : ¬EndsInComment dialect first) (filled : blanks ≠ [])
    (blank : ∀ point ∈ blanks, Cursor.isBlank point = true) :
    ∃ before, tokens = before ++ [⟨.endOfText, first.length⟩] ∧
      (∀ others, tokenize dialect second = .ok others →
        tokenize dialect (first ++ blanks ++ second) =
          .ok (before ++ others.map (Token.shift (first ++ blanks).length))) ∧
      ∀ failure, tokenize dialect second = .error failure →
        tokenize dialect (first ++ blanks ++ second) =
          .error ((failure.toParseFault.shift (first ++ blanks).length).locate (first ++ blanks ++ second)) := by
  have listed := toList_of_tokenize came
  rcases Lexed.of_unbroken first 0 (Tokens.toList_eq_ok listed).1 with ⟨lexemes, lexed⟩ | comment
  swap
  · exact absurd comment closed
  obtain ⟨before, alone, joined⟩ := lexed.scan_append (Text.Parts.of_blanks filled blank second) 0
  rw [Tokens.ofText, alone, Tokens.toList_lay] at listed
  cases listed
  -- The blanks are skipped, and the second text is scanned as if it stood alone.
  have skipped : Tokens.scan dialect ⟨0 + first.length, blanks ++ second⟩ =
      (Tokens.ofText dialect second).shift (first ++ blanks).length := by
    have skip : Cursor.skip ⟨0 + first.length, blanks ++ second⟩ =
        Cursor.skip ⟨0 + (first ++ blanks).length, second⟩ := by
      rw [List.length_append, ← Nat.add_assoc]
      exact Cursor.skipGap_gap (.of_blanks blank) _ second
    rw [Tokens.scan_congr skip]
    exact Tokens.scan_shift _ ⟨0, second⟩
  have whole : (Tokens.ofText dialect (first ++ blanks ++ second)).toList =
      ((Tokens.ofText dialect second).shift (first ++ blanks).length).toList.map (before ++ ·) := by
    rw [List.append_assoc first, Tokens.ofText, joined, skipped, Tokens.toList_lay]
  rw [Tokens.toList_shift] at whole
  refine ⟨before, by rw [Nat.zero_add], fun others read => ?_, fun failure broken => ?_⟩
  · rw [tokenize, whole, toList_of_tokenize read]
    rfl
  · rw [tokenize] at broken
    cases list : (Tokens.ofText dialect second).toList with
    | ok others =>
        rw [list] at broken
        cases broken
    | error fault =>
        rw [list] at broken whole
        cases broken
        rw [tokenize, whole]
        rfl

/-- A sum of a number and a text, before a comment and a number, and before a text with a bad escape. -/
theorem tokenize_joined_of_sum :
    tokenize (.standard {}) (Text.ofString "2+'b'") = .ok [⟨.number (.int 2), 0⟩,
        ⟨.operator (Text.ofString "+"), 1⟩, ⟨.text (Text.ofString "b"), 2⟩, ⟨.endOfText, 5⟩] ∧
      ¬EndsInComment (.standard {}) (Text.ofString "2+'b'") ∧
      tokenize (.standard {}) (Text.ofString "2+'b' \t/**/ 2") = .ok [⟨.number (.int 2), 0⟩,
        ⟨.operator (Text.ofString "+"), 1⟩, ⟨.text (Text.ofString "b"), 2⟩, ⟨.number (.int 2), 12⟩,
        ⟨.endOfText, 13⟩] ∧
      tokenize (.standard {}) (Text.ofString "2+'b' \t'\\q'") =
        .error ⟨⟨.unknownEscape (Text.ofString "q"), 8, none⟩, 1, 9⟩ := by
  have came : tokenize (.standard {}) (Text.ofString "2+'b'") = .ok [⟨.number (.int 2), 0⟩,
      ⟨.operator (Text.ofString "+"), 1⟩, ⟨.text (Text.ofString "b"), 2⟩, ⟨.endOfText, 5⟩] :=
    tokenize_within rfl
  have closed : ¬EndsInComment (.standard {}) (Text.ofString "2+'b'") :=
    fun comment => absurd comment.slash (by decide)
  have joined (second : Text) :=
    @tokenize_joined _ _ (Text.ofString " \t") second _ came closed (by decide) (by decide)
  have number : tokenize (.standard {}) (Text.ofString "/**/ 2") = .ok [⟨.number (.int 2), 5⟩, ⟨.endOfText, 6⟩] :=
    tokenize_within rfl
  have broken : tokenize (.standard {}) (Text.ofString "'\\q'") =
      .error ⟨⟨.unknownEscape (Text.ofString "q"), 1, none⟩, 1, 2⟩ := by
    rw [tokenize, Tokens.ofText, Tokens.scan_eq_scanWithin _ 4 _ (by decide)]
    rfl
  refine ⟨came, closed, ?_, ?_⟩
  · obtain ⟨before, ends, tokens, -⟩ := joined (Text.ofString "/**/ 2")
    obtain rfl := List.append_cancel_right (show [_, _, _] ++ [_] = before ++ [_] from ends)
    exact tokens _ number
  · obtain ⟨before, ends, -, fails⟩ := joined (Text.ofString "'\\q'")
    exact fails _ broken

end Formula
