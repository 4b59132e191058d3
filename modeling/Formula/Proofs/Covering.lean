import Formula.Proofs.Lookahead
import Formula.Proofs.Quoting

/-!
Reading a text token by token loses nothing of it: the places from each token to where the stream stands
after it, the blanks and the comments follow one another without gaps, up to the end of the text or to the
token at fault.
-/

namespace Formula

/-- A token with the place where the stream stands after it. -/
structure Span where
  token : Token
  stop : Nat

/-- A comment of a text: up to the first mark that closes it, or to the end of the text. -/
inductive Text.Comment (source : Text) (start : Nat) : Nat → Prop
  | closed {body rest : Text} (unclosed : body.Unclosed)
      (there : source.drop start = '/'.toNat :: '*'.toNat :: (body ++ '*'.toNat :: '/'.toNat :: rest)) :
      Comment source start (start + body.length + 4)
  | opened {body : Text} (unclosed : body.Unclosed) (there : source.drop start = '/'.toNat :: '*'.toNat :: body) :
      Comment source start source.length

/-- Spans, blanks and comments one after the other, from one place of a text to another. -/
inductive Tiled (source : Text) : Nat → List Span → Nat → Prop
  | finish {last : Nat} (within : last ≤ source.length) : Tiled source last [] last
  | blank {start last : Nat} {spans : List Span} {point : CodePoint} (there : source[start]? = some point)
      (blank : Cursor.isBlank point = true) (later : Tiled source (start + 1) spans last) :
      Tiled source start spans last
  | comment {start stop last : Nat} {spans : List Span} (comment : source.Comment start stop)
      (later : Tiled source stop spans last) : Tiled source start spans last
  | span {span : Span} {last : Nat} {spans : List Span} (filled : span.token.position < span.stop)
      (later : Tiled source span.stop spans last) : Tiled source span.token.position (span :: spans) last

/-- Spans of a text from one place to another: none is empty, no two overlap, and what stands outside all of
them is a blank or in a comment. -/
structure Covers (source : Text) (first : Nat) (spans : List Span) (last : Nat) : Prop where
  ordered : first ≤ last
  within : last ≤ source.length
  filled : ∀ span ∈ spans, first ≤ span.token.position ∧ span.token.position < span.stop ∧ span.stop ≤ last
  apart : spans.Pairwise fun one two => one.stop ≤ two.token.position
  outside : ∀ place, first ≤ place → place < last →
    (∃ span ∈ spans, span.token.position ≤ place ∧ place < span.stop) ∨
    (∃ point, source[place]? = some point ∧ Cursor.isBlank point = true) ∨
    ∃ start stop, source.Comment start stop ∧ first ≤ start ∧ start ≤ place ∧ place < stop ∧ stop ≤ last ∧
      ∀ span ∈ spans, stop ≤ span.token.position ∨ span.stop ≤ start

section

variable {source : Text} {first start stop last : Nat} {spans : List Span}

theorem Text.Comment.filled (comment : source.Comment start stop) : start < stop ∧ stop ≤ source.length := by
  cases comment with
  | closed unclosed there =>
      have length := congrArg List.length there
      simp only [List.length_drop, List.length_cons, List.length_append] at length
      omega
  | opened unclosed there =>
      have length := congrArg List.length there
      simp only [List.length_drop, List.length_cons] at length
      omega

/-- Blanks, or a comment, before what is covered. -/
theorem Covers.behind (later : Covers source stop spans last) (before : start ≤ stop)
    (skipped : ∀ place, start ≤ place → place < stop →
      (∃ point, source[place]? = some point ∧ Cursor.isBlank point = true) ∨
      source.Comment start stop) : Covers source start spans last where
  ordered := Nat.le_trans before later.ordered
  within := later.within
  filled span among := by
    obtain ⟨lower, filled, upper⟩ := later.filled span among
    exact ⟨Nat.le_trans before lower, filled, upper⟩
  apart := later.apart
  outside place lower upper := by
    by_cases here : place < stop
    · rcases skipped place lower here with blank | comment
      · exact .inr (.inl blank)
      · exact .inr (.inr ⟨start, stop, comment, Nat.le_refl _, lower, here, later.ordered,
          fun span among => .inl (later.filled span among).1⟩)
    · rcases later.outside place (Nat.le_of_not_lt here) upper with inside | blank |
        ⟨opening, ending, comment, behind, after, inside, ends, free⟩
      · exact .inl inside
      · exact .inr (.inl blank)
      · exact .inr (.inr ⟨opening, ending, comment, Nat.le_trans before behind, after, inside, ends, free⟩)

theorem Covers.span {span : Span} (filled : span.token.position < span.stop)
    (later : Covers source span.stop spans last) : Covers source span.token.position (span :: spans) last where
  ordered := Nat.le_trans (Nat.le_of_lt filled) later.ordered
  within := later.within
  filled := List.forall_mem_cons.mpr ⟨⟨Nat.le_refl _, filled, later.ordered⟩, fun other among => by
    obtain ⟨lower, filledOther, upper⟩ := later.filled other among
    exact ⟨Nat.le_trans (Nat.le_of_lt filled) lower, filledOther, upper⟩⟩
  apart := List.pairwise_cons.mpr ⟨fun other among => (later.filled other among).1, later.apart⟩
  outside place lower upper := by
    by_cases here : place < span.stop
    · exact .inl ⟨span, List.mem_cons_self, lower, here⟩
    · rcases later.outside place (Nat.le_of_not_lt here) upper with ⟨other, among, inside⟩ | blank |
        ⟨opening, ending, comment, behind, after, inside, ends, free⟩
      · exact .inl ⟨other, List.mem_cons_of_mem _ among, inside⟩
      · exact .inr (.inl blank)
      · exact .inr (.inr ⟨opening, ending, comment, Nat.le_trans (Nat.le_of_lt filled) behind, after, inside, ends,
          List.forall_mem_cons.mpr ⟨.inr behind, free⟩⟩)

theorem Tiled.covers (tiled : Tiled source start spans last) : Covers source start spans last := by
  induction tiled with
  | finish within =>
      exact ⟨Nat.le_refl _, within, nofun, .nil, fun place lower upper => absurd upper (Nat.not_lt_of_le lower)⟩
  | blank there blank _ ih =>
      refine ih.behind (Nat.le_succ _) fun place lower upper => .inl ⟨_, ?_, blank⟩
      rwa [Nat.le_antisymm (Nat.le_of_lt_succ upper) lower]
  | comment comment _ ih => exact ih.behind (Nat.le_of_lt comment.filled.1) fun _ _ _ => .inr comment
  | span filled _ ih => exact ih.span filled

/-! What the stream skips is tiled. -/

theorem drop_of_append (before : Text) {after : Text} (there : source.drop start = before ++ after) :
    source.drop (start + before.length) = after := by
  rw [← List.drop_drop, there, List.drop_left]

theorem Tiled.gap {gap rest : Text} (closed : Gap gap) (there : source.drop start = gap ++ rest)
    (later : Tiled source (start + gap.length) spans last) : Tiled source start spans last := by
  induction closed generalizing start with
  | nil => exact later
  | blank blank _ ih =>
      rename_i point gap _
      refine .blank ?_ blank (ih (drop_of_append [point] there) ?_)
      · rw [← Nat.add_zero start, ← List.getElem?_drop, there]
        rfl
      · rwa [Nat.add_assoc, Nat.add_comm 1]
  | comment unclosed _ ih =>
      rename_i body gap _
      -- Four signs mark the comment: two before its body, two after it.
      have whole : source.drop start = '/'.toNat :: '*'.toNat :: (body ++ '*'.toNat :: '/'.toNat :: (gap ++ rest)) := by
        rw [there]
        simp
      have after : source.drop (start + body.length + 4) = gap ++ rest := by
        have opened : source.drop start =
            ('/'.toNat :: '*'.toNat :: (body ++ ['*'.toNat, '/'.toNat])) ++ (gap ++ rest) := by
          simpa using whole
        simpa [Nat.add_assoc] using drop_of_append _ opened
      refine .comment (.closed unclosed whole) (ih after ?_)
      have length : start + body.length + 4 + gap.length =
          start + ('/'.toNat :: '*'.toNat :: (body ++ '*'.toNat :: '/'.toNat :: gap)).length := by
        simp only [List.length_cons, List.length_append]
        omega
      rwa [length]

end

namespace Cursor

/-- A comment that nothing closes goes on to the end of the text. -/
theorem skipGap_unclosed {body : Text} (unclosed : body.Unclosed) (position : Nat) :
    skipGap .inside position body = ⟨position + body.length, []⟩ := by
  induction body generalizing position with
  | nil => rfl
  | cons point body ih =>
      obtain ⟨later, open'⟩ := Text.unclosed_cons.mp unclosed
      rw [skipGap]
      simp only [if_neg open']
      rw [ih later, List.length_cons, Nat.add_assoc, Nat.add_comm 1]

variable {source : Text} {cursor : Cursor} {spans : List Span} {last : Nat}

/-- The stream skips blanks and comments alone. -/
theorem In.tiled (inside : cursor.In source) (later : Tiled source cursor.skip.position spans last) :
    Tiled source cursor.position spans last := by
  obtain ⟨position, text⟩ := cursor
  have there : source.drop position = text := inside.drop
  rcases Gap.begins text with ⟨gap, rest, rfl, closed, stops⟩ | ⟨gap, body, rfl, closed, unclosed⟩
  · rw [Lexed.skip_gap closed rest stops] at later
    exact later.gap closed there
  · have after := drop_of_append gap there
    have length := congrArg List.length after
    have skipped : Cursor.skip ⟨position, gap ++ '/'.toNat :: '*'.toNat :: body⟩ = ⟨source.length, []⟩ := by
      rw [skip, skipGap_gap closed]
      change Cursor.skipGap .inside (position + gap.length + 2) body = _
      rw [skipGap_unclosed unclosed]
      simp only [List.length_drop, List.length_cons] at length
      congr 1
      omega
    rw [skipped] at later
    exact .gap closed there (.comment (.opened unclosed after) later)

end Cursor

/-- A place between the quotes of the text that stands somewhere in a source. -/
def Text.InQuotes (source : Text) (start place : Nat) : Prop :=
  ∃ (quote : CodePoint) (content rest : Text), source.drop start = quote :: (content ++ quote :: rest) ∧
    content.Quoted quote ∧ start < place ∧ place ≤ start + content.length

/-- Where no token is found, the fault lies at the first character, or between the quotes of a text. -/
theorem Scan.token_offset {dialect : Dialect} {first : CodePoint} {rest : Text} {cause : ParseCause} {offset : Nat}
    (failed : token dialect first rest = .error (cause, offset)) :
    offset = 0 ∨ ∃ content after, rest = content ++ first :: after ∧ content.Quoted first ∧ 0 < offset ∧
      offset ≤ content.length := by
  unfold token at failed
  split at failed
  · cases failed
  · split at failed
    · rename_i quoted
      unfold text? at quoted
      split at quoted
      · rename_i mark
        obtain ⟨size, closes, came⟩ := Option.map_eq_some_iff.mp quoted
        obtain ⟨content, after, rfl, rfl, quoted⟩ := closingQuote?_quoted mark closes
        rw [List.take_left, failed] at came
        have free : content.getLast? ≠ some '\\'.toNat := fun last => quoted.free (by
          rw [List.getLastD_eq_getLast?, last]
          rfl)
        obtain ⟨before, bad, same, rfl, -⟩ := unescape_misspelled free (error_of_map came)
        refine .inr ⟨content, after, rfl, quoted, by omega, ?_⟩
        rw [same, List.length_append, List.length_cons]
        omega
      · cases quoted
    · split at failed
      · cases failed
      · cases failed
        exact .inl rfl

namespace TokenStream

/-- The spans of the tokens that a stream delivers, before the end of its text and before a failure. -/
inductive Delivers : TokenStream → List Span → TokenStream → Prop
  | finish (stream : TokenStream) : Delivers stream [] stream
  | next {stream after last : TokenStream} {token : Token} {spans : List Span}
      (came : stream.next = (.ok token, after)) (proper : token.lexeme ≠ .endOfText)
      (later : Delivers after spans last) : Delivers stream (⟨token, after.cursor.position⟩ :: spans) last

variable {stream : TokenStream} {source : Text} {position size offset : Nat} {first : CodePoint} {rest : Text}
  {lexeme : Lexeme} {cause : ParseCause}

theorem next_finish (skipped : stream.cursor.skip = ⟨position, []⟩) :
    stream.next = (.ok ⟨.endOfText, position⟩, { stream with cursor := ⟨position, []⟩ }) := by
  rw [next, Cursor.next, skipped]

theorem next_token (skipped : stream.cursor.skip = ⟨position, first :: rest⟩)
    (read : Scan.token stream.dialect first rest = .ok (lexeme, size)) :
    stream.next =
      (.ok ⟨lexeme, position⟩, { stream with cursor := ⟨position + size + 1, rest.drop size⟩ }) := by
  rw [next, Cursor.next, skipped]
  simp only [read]

theorem next_broken (skipped : stream.cursor.skip = ⟨position, first :: rest⟩)
    (failed : Scan.token stream.dialect first rest = .error (cause, offset)) :
    stream.next =
      (.error (ParseFault.locate stream.source { cause := cause, position := position + offset }),
        { stream with cursor := ⟨position, first :: rest⟩ }) := by
  rw [next, Cursor.next, skipped]
  simp only [failed]

/-- How the tokens end where a stream stands, and at which place: with the text, or with a failure. -/
inductive Closes (source : Text) (stream : TokenStream) : Tokens → Nat → Prop
  | finish (came : stream.next.1 = .ok ⟨.endOfText, source.length⟩) :
      Closes source stream (.finish source.length) source.length
  | broken {fault : ParseFault} {stopped : TokenStream}
      (came : stream.next = (.error (fault.locate source), stopped)) (lexical : fault.isLexical = true)
      (place : fault.position = stopped.cursor.position ∨
        source.InQuotes stopped.cursor.position fault.position) :
      Closes source stream (.broken fault) stopped.cursor.position

/-- A stream delivers the tokens of its text one by one, and what it goes past is tiled. -/
theorem delivers_tiled (stream : TokenStream) (inside : stream.cursor.In stream.source) :
    ∃ (spans : List Span) (last : TokenStream) (rest : Tokens) (place : Nat), stream.Delivers spans last ∧
      Tokens.scan stream.dialect stream.cursor = .lay (spans.map Span.token) rest ∧
      last.Closes stream.source rest place ∧ Tiled stream.source stream.cursor.position spans place := by
  obtain ⟨dialect, source, cursor, checkpoint⟩ := stream
  simp only at inside ⊢
  -- One case for each way to go on: the end of the text, no token at all, or a token and what comes after it.
  fun_induction Tokens.scan dialect cursor with
  | case1 cursor position skipped =>
      have ends : cursor.skip.In source := inside.skipGap .outside
      rw [skipped] at ends
      -- Nothing is left of the text, so this place is its end.
      have place : position = source.length := by
        have within := ends.within
        have rest := congrArg List.length ends.drop
        simp only [List.length_drop, List.length_nil] at rest within
        omega
      subst place
      refine ⟨[], _, _, _, .finish _, rfl, .finish ?_, inside.tiled ?_⟩
      · rw [next_finish skipped]
      · rw [skipped]
        exact .finish (Nat.le_refl _)
  | case2 cursor position first rest skipped cause offset failed =>
      have here : cursor.skip.In source := inside.skipGap .outside
      rw [skipped] at here
      have lexical : ParseFault.isLexical { cause := cause, position := position + offset } = true :=
        Offends.isLexical (Scan.token_offends failed).2
      have came := @next_broken ⟨dialect, source, cursor, checkpoint⟩ _ _ _ _ _ skipped failed
      refine ⟨[], _, _, position, .finish _, rfl, .broken came lexical ?_, inside.tiled ?_⟩
      · rcases Scan.token_offset failed with rfl | ⟨content, after, rfl, quoted, lower, upper⟩
        · exact .inl rfl
        · exact .inr ⟨first, content, after, here.drop, quoted, Nat.lt_add_of_pos_right lower,
            Nat.add_le_add_left upper _⟩
      · rw [skipped]
        exact .finish here.within
  | case3 cursor position first rest skipped lexeme size read ih =>
      have here : cursor.skip.In source := inside.skipGap .outside
      rw [skipped] at here
      have fits := Scan.token_fits read
      have proper : lexeme ≠ .endOfText := by
        rintro rfl
        cases fits.possible
      obtain ⟨spans, last, others, place, delivers, scanned, closes, tiled⟩ :=
        ih (here.advance (size + 1) (Nat.succ_le_succ fits.within))
      let span : Span := ⟨⟨lexeme, position⟩, position + size + 1⟩
      have filled : span.token.position < span.stop := by
        simp only [span]
        omega
      refine ⟨span :: spans, last, others, place, .next (next_token skipped read) proper delivers, ?_, closes,
        inside.tiled ?_⟩
      · rw [scanned]
        rfl
      · rw [skipped]
        exact .span filled tiled

theorem Delivers.proper {stream last : TokenStream} {spans : List Span} (delivers : stream.Delivers spans last) :
    ∀ span ∈ spans, span.token.lexeme ≠ .endOfText := by
  induction delivers with
  | finish stream => nofun
  | next came proper later ih => exact List.forall_mem_cons.mpr ⟨proper, ih⟩

end TokenStream

namespace Tokens

theorem toList_lay (before : List Token) (rest : Tokens) :
    (lay before rest).toList = rest.toList.map (before ++ ·) := by
  induction before with
  | nil =>
      rw [lay, List.foldr_nil]
      cases rest.toList <;> rfl
  | cons token before ih =>
      rw [lay_cons, toList, ih]
      cases rest.toList <;> rfl

end Tokens

/-- The tokens of spans that do not overlap, and the end of the text after them, are in order. -/
theorem Covers.increasing {source : Text} {first : Nat} {spans : List Span}
    (covers : Covers source first spans source.length) :
    List.Pairwise (fun one two : Token => one.position < two.position)
      (spans.map Span.token ++ [⟨.endOfText, source.length⟩]) := by
  refine List.pairwise_append.mpr ⟨List.pairwise_map.mpr ?_, List.pairwise_singleton _ _, ?_⟩
  · exact covers.apart.imp_of_mem fun among _ apart =>
      Nat.lt_of_lt_of_le (covers.filled _ among).2.1 apart
  · intro token mapped last same
    obtain ⟨span, among, rfl⟩ := List.mem_map.mp mapped
    cases List.mem_singleton.mp same
    obtain ⟨-, filled, within⟩ := covers.filled span among
    exact Nat.lt_of_lt_of_le filled within

/-- Nothing of a text is lost. The tokens that the stream delivers, all blanks and all comments are the whole
text, and the tokens are those of `tokenize`, with the end of the text after them; or they are all that comes
before the place where the stream stops with a failure. -/
theorem tokens_cover (dialect : Dialect) (source : Text) :
    ∃ spans last, (TokenStream.start dialect source).Delivers spans last ∧
      (∀ span ∈ spans, span.token.lexeme ≠ .endOfText) ∧
      ((tokenize dialect source = .ok (spans.map Span.token ++ [⟨.endOfText, source.length⟩]) ∧
          last.next.1 = .ok ⟨.endOfText, source.length⟩ ∧
          List.Pairwise (fun one two : Token => one.position < two.position)
            (spans.map Span.token ++ [⟨.endOfText, source.length⟩]) ∧
          Covers source 0 spans source.length) ∨
        ∃ failure stopped, tokenize dialect source = .error failure ∧ failure.isLexical = true ∧
          last.next = (.error failure, stopped) ∧ Covers source 0 spans stopped.cursor.position ∧
          (failure.position = stopped.cursor.position ∨
            source.InQuotes stopped.cursor.position failure.position)) := by
  obtain ⟨spans, last, rest, place, delivers, scanned, closes, tiled⟩ :=
    TokenStream.delivers_tiled (.start dialect source) (Cursor.in_start source)
  have covers : Covers source 0 spans place := tiled.covers
  have scanned : Tokens.ofText dialect source = .lay (spans.map Span.token) rest := scanned
  refine ⟨spans, last, delivers, delivers.proper, ?_⟩
  rw [tokenize, scanned, Tokens.toList_lay]
  cases closes with
  | finish came => exact .inl ⟨rfl, came, covers.increasing, covers⟩
  | broken came lexical place => exact .inr ⟨_, _, rfl, lexical, came, covers, place⟩

end Formula
