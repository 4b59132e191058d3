import Formula.Proofs.Location
import Formula.Proofs.Source

/-!
Parsing depends on a text through its tokens alone. Two texts with the same lexemes are parsed alike, and a
parser that draws tokens from the stream, one ahead and with one checkpoint, comes to what the tokens of the
whole text come to.
-/

namespace Formula

namespace Tokens

/-! Tokens with the same lexemes. -/

def takeNext : Tokens → Parse (Token × Tokens)
  | .cons token rest => do
    let after ← Grammar.settle rest
    pure (token, after)
  | .finish position => pure (⟨.endOfText, position⟩, .finish position)
  | .broken fault => throw fault

/-- Tokens are a value, so that a parser goes back by taking the old value. -/
def source : Source Tokens ParseFault where
  head := head
  take := takeNext
  save := id
  restore before _ := before
  blame _ fault := fault

theorem take_cons {token : Token} {rest : Tokens} (whole : rest.Whole) :
    source.take (.cons token rest) = pure (token, rest) := by
  have whole : Grammar.settle rest = pure rest := whole
  change (Grammar.settle rest >>= fun after => pure (token, after)) = _
  rw [whole, pure_bind]

/-- Two sequences of the same lexemes, both to the end of their texts. -/
inductive Alike : Tokens → Tokens → Prop
  | finish (position other : Nat) : Alike (.finish position) (.finish other)
  | cons {token other : Token} {rest others : Tokens} (same : token.lexeme = other.lexeme)
      (proper : token.lexeme ≠ .endOfText) (later : Alike rest others) :
      Alike (.cons token rest) (.cons other others)

theorem Alike.whole {tokens others : Tokens} (alike : Alike tokens others) : tokens.Whole ∧ others.Whole := by
  cases alike with
  | finish position other => exact ⟨rfl, rfl⟩
  | cons same proper later => exact ⟨rfl, rfl⟩

theorem toList_eq_ok {tokens : Tokens} {list : List Token} (came : tokens.toList = .ok list) :
    tokens.fault? = none ∧ tokens.delivered = list := by
  induction tokens generalizing list with
  | finish position =>
      cases came
      exact ⟨rfl, rfl⟩
  | broken fault => cases came
  | cons token rest ih =>
      rw [toList] at came
      cases later : rest.toList with
      | error fault =>
          rw [later] at came
          cases came
      | ok others =>
          rw [later] at came
          cases came
          obtain ⟨unbroken, delivered⟩ := ih later
          exact ⟨unbroken, congrArg (token :: ·) delivered⟩

theorem alike_of_lexemes {tokens others : Tokens} (unbroken : tokens.fault? = none)
    (unbrokenOthers : others.fault? = none) (proper : tokens.All (· ≠ .endOfText))
    (properOthers : others.All (· ≠ .endOfText))
    (same : tokens.delivered.map Token.lexeme = others.delivered.map Token.lexeme) : Alike tokens others := by
  induction tokens generalizing others with
  | finish position =>
      cases others with
      | finish other => exact .finish position other
      | broken fault => cases unbrokenOthers
      | cons other others =>
          rw [delivered, delivered, List.map_cons, List.map_cons, List.cons.injEq] at same
          exact absurd same.1.symm properOthers.1
  | broken fault => cases unbroken
  | cons token rest ih =>
      cases others with
      | finish other =>
          rw [delivered, delivered, List.map_cons, List.map_cons, List.cons.injEq] at same
          exact absurd same.1 proper.1
      | broken fault => cases unbrokenOthers
      | cons other others =>
          rw [delivered, delivered, List.map_cons, List.map_cons, List.cons.injEq] at same
          exact .cons same.1 proper.1 (ih unbroken unbrokenOthers proper.2 properOthers.2 same.2)

/-- What two parsers may say of corresponding tokens: the same, each at its token. -/
structure Corresponding (pairs : List (Token × Token)) (fault other : ParseFault) : Prop where
  cause : fault.cause = other.cause
  found : fault.found = other.found
  place : ∃ pair ∈ pairs, fault.position = pair.1.position ∧ other.position = pair.2.position

/-- Tokens hand out the tokens of a text with the same lexemes. -/
theorem hands_alike (pairs : List (Token × Token)) :
    Hands source (fun tokens others => Alike tokens others ∧ tokens.delivered.zip others.delivered ⊆ pairs)
      (fun token other => token.lexeme = other.lexeme ∧ (token, other) ∈ pairs) (Corresponding pairs) where
  whole here := here.1.whole.1
  proper here := by
    obtain ⟨alike, -⟩ := here
    cases alike with
    | cons same proper later => exact proper
  lexeme same := same.1
  head here := by
    obtain ⟨alike, among⟩ := here
    cases alike with
    | finish position other => exact ⟨rfl, among List.mem_cons_self⟩
    | cons same proper later => exact ⟨same, among List.mem_cons_self⟩
  take here := by
    obtain ⟨alike, among⟩ := here
    cases alike with
    | cons same proper later =>
        have whole : Grammar.settle _ = pure _ := later.whole.1
        rw [whole, take_cons later.whole.2]
        exact follows_pure ⟨⟨same, among List.mem_cons_self⟩, later,
          fun pair member => among (List.mem_cons_of_mem _ member)⟩
  finish here := by
    obtain ⟨alike, -⟩ := here
    cases alike
    exact ⟨_, rfl⟩
  save here := here
  restore here _ := here
  blame cause _ same := ⟨rfl, congrArg some same.1, _, same.2, rfl, rfl⟩

/-- Over the tokens themselves the grammar of sources is the parser. -/
theorem readAll_source (dialect : Dialect) {tokens others : Tokens} (alike : Alike tokens others) {depth : Nat}
    (enough : Grammar.depthFor tokens ≤ depth) :
    Follows Eq (Corresponding (tokens.delivered.zip others.delivered)) (Grammar.readAll dialect tokens)
      (source.readAll dialect depth others) :=
  (hands_alike _).readingAll enough ⟨alike, fun _ member => member⟩

theorem Alike.refl {tokens others : Tokens} (alike : Alike tokens others) : Alike others others := by
  induction alike with
  | finish position other => exact .finish other other
  | cons same proper later ih => exact .cons rfl (same ▸ proper) ih

theorem Alike.size {tokens others : Tokens} (alike : Alike tokens others) : tokens.size = others.size := by
  induction alike with
  | finish => rfl
  | cons same proper later ih => rw [Tokens.size, Tokens.size, ih]

theorem Corresponding.eq_of_same {list : List Token} {fault other : ParseFault}
    (corresponding : Corresponding (list.zip list) fault other) : fault = other := by
  obtain ⟨cause, position, found⟩ := fault
  obtain ⟨otherCause, otherPosition, otherFound⟩ := other
  obtain ⟨rfl, rfl, ⟨first, second⟩, among, rfl, rfl⟩ := corresponding
  rw [List.zip_eq_zipWith, List.zipWith_self] at among
  obtain ⟨token, -, same⟩ := List.mem_map.mp among
  cases same
  rfl

theorem readAll_ne_none (dialect : Dialect) (tokens : Tokens) :
    (Grammar.readAll dialect tokens).run ≠ none := by
  intro none
  have ends := Grammar.ends_readAll (@closed_trivial dialect) (Tokens.all_trivial tokens)
  unfold Parse.Ends at ends
  rw [none] at ends
  exact ends

/-- Tokens with the same lexemes are parsed alike. -/
theorem follows_alike (dialect : Dialect) {tokens others : Tokens} (alike : Alike tokens others) :
    Follows Eq (Corresponding (tokens.delivered.zip others.delivered)) (Grammar.readAll dialect tokens)
      (Grammar.readAll dialect others) := by
  have enough : Grammar.depthFor tokens ≤ Grammar.depthFor others := by
    rw [Grammar.depthFor, Grammar.depthFor, alike.size]
  have crossed := readAll_source dialect alike enough
  have straight := readAll_source dialect alike.refl (Nat.le_refl (Grammar.depthFor others))
  have same := straight.run_eq (fun _ _ close => close.eq_of_same) (readAll_ne_none dialect others)
  unfold Follows at crossed ⊢
  rwa [same] at crossed

end Tokens

/-- A parser's view of a stream of tokens: the token it took last, the one that comes next, and what both
were at its checkpoint. The stream itself stands behind the token that comes next. -/
structure Lookahead where
  stream : TokenStream
  current : Option Token
  following : Token
  savedCurrent : Option Token
  savedFollowing : Token

/-- Draws the next token from a stream. -/
def TokenStream.draw (stream : TokenStream) : Attempt ParseFailure (Token × TokenStream) :=
  match stream.next with
  | (.ok token, after) => pure (token, after)
  | (.error failure, _) => throw failure

namespace Lookahead

def start (dialect : Dialect) (text : Text) : Attempt ParseFailure Lookahead := do
  let (token, stream) ← (TokenStream.start dialect text).draw
  pure ⟨stream, none, token, none, token⟩

def advance (state : Lookahead) : Attempt ParseFailure (Token × Lookahead) := do
  let (token, stream) ← state.stream.draw
  pure (state.following, { state with stream := stream, current := some state.following, following := token })

def save (state : Lookahead) : Lookahead :=
  { state with
    stream := state.stream.save
    savedCurrent := state.current
    savedFollowing := state.following }

def restore (state : Lookahead) : Lookahead :=
  { state with
    stream := state.stream.restore
    current := state.savedCurrent
    following := state.savedFollowing }

def source : Source Lookahead ParseFailure where
  head := following
  take := advance
  save := save
  restore _ after := after.restore
  blame state fault := fault.locate state.stream.source

/-- What a text is parsed to with tokens drawn from the stream one by one. -/
def parse (dialect : Dialect) (text : Text) : Except ParseFailure Term :=
  let reading := do
    let state ← start dialect text
    source.readAll dialect (32 * (text.length + 2)) state
  match reading.run with
  | some result => result
  | none => .error (ParseFault.locate text { cause := .unexpected .endOfText, position := 0 })

/-! The checkpoint. -/

/-- Some tokens were taken since a state, and nothing was saved. -/
inductive Ahead (before : Lookahead) : Lookahead → Prop
  | here : Ahead before before
  | taken {state after : Lookahead} {token : Token} (earlier : Ahead before state)
      (came : state.advance.run = some (.ok (token, after))) : Ahead before after

theorem restore_advance {state after : Lookahead} {token : Token}
    (came : state.advance.run = some (.ok (token, after))) : after.restore = state.restore := by
  unfold advance TokenStream.draw TokenStream.next at came
  cases next : state.stream.cursor.next state.stream.dialect with
  | error fault =>
      rw [next] at came
      cases came
  | ok pair =>
      rw [next] at came
      cases came
      rfl

/-- However many tokens were taken since the checkpoint, the parser is back where it was. -/
theorem restore_of_ahead {before after : Lookahead} (ahead : Ahead before.save after) :
    after.restore = before.save := by
  induction ahead with
  | here => rfl
  | taken earlier came ih => rw [restore_advance came, ih]

/-! The stream hands out the tokens of its text. -/

/-- A token drawn from the stream of a text, with the tokens that begin there. -/
structure Drawn (dialect : Dialect) (text : Text) (tokens : Tokens) (token : Token) (stream : TokenStream) :
    Prop where
  dialect : stream.dialect = dialect
  source : stream.source = text
  begins : (∃ position, tokens = .finish position ∧ token = ⟨.endOfText, position⟩ ∧
      stream.cursor = ⟨position, []⟩) ∨
    (tokens = .cons token (.scan stream.dialect stream.cursor) ∧ token.lexeme ≠ .endOfText)

theorem draw_end {stream : TokenStream} {position : Nat} (ends : stream.cursor = ⟨position, []⟩) :
    stream.draw = pure (⟨.endOfText, position⟩, { stream with cursor := ⟨position, []⟩ }) := by
  rw [TokenStream.draw, TokenStream.next, ends]
  rfl

theorem follows_draw (stream : TokenStream) :
    Follows (fun tokens drawn => Drawn stream.dialect stream.source tokens drawn.1 drawn.2)
      (fun fault failure => failure = fault.locate stream.source)
      (Grammar.settle (.scan stream.dialect stream.cursor)) stream.draw := by
  rw [Tokens.scan, TokenStream.draw, TokenStream.next, Cursor.next]
  split
  · rename_i position skipped
    simp only [skipped]
    exact follows_pure ⟨rfl, rfl, .inl ⟨position, rfl, rfl, rfl⟩⟩
  · rename_i position first rest skipped
    simp only [skipped]
    cases read : Scan.token stream.dialect first rest with
    | error refusal => exact follows_throw rfl
    | ok found =>
        obtain ⟨lexeme, size⟩ := found
        have proper : lexeme ≠ .endOfText := by
          rintro rfl
          cases (Scan.token_fits read).possible
        exact follows_pure ⟨rfl, rfl, .inr ⟨rfl, proper⟩⟩

/-- The stream hands out the tokens of a text, and its checkpoint serves the one place where the parser goes
back. -/
theorem hands_stream (dialect : Dialect) (text : Text) :
    Hands source (fun tokens state => Drawn dialect text tokens state.following state.stream) Eq
      (fun fault failure => failure = fault.locate text) where
  whole here := by
    obtain ⟨-, -, ⟨position, rfl, -⟩ | ⟨rfl, -⟩⟩ := here
    · rfl
    · rfl
  proper here := by
    obtain ⟨-, -, ⟨position, ends, -⟩ | ⟨same, proper⟩⟩ := here
    · cases ends
    · cases same
      exact proper
  lexeme same := congrArg Token.lexeme same
  head here := by
    obtain ⟨-, -, ⟨position, rfl, same, -⟩ | ⟨rfl, -⟩⟩ := here
    · exact same.symm
    · rfl
  take here := by
    obtain ⟨rfl, rfl, ⟨position, ends, -⟩ | ⟨same, proper⟩⟩ := here
    · cases ends
    · cases same
      rw [← bind_pure (Grammar.settle _)]
      exact follows_bind (follows_draw _) fun tokens drawn here => follows_pure ⟨rfl, here⟩
  finish here := by
    obtain ⟨-, -, ⟨position, -, -, cursor⟩ | ⟨same, -⟩⟩ := here
    · change ∃ taken, (advance _).run = some (.ok taken)
      rw [advance, draw_end cursor, pure_bind]
      exact ⟨_, rfl⟩
    · cases same
  save here := ⟨here.dialect, here.source, here.begins⟩
  restore here came := by
    change Drawn dialect text _ (restore _).following (restore _).stream
    rw [restore_advance came]
    exact ⟨here.dialect, here.source, here.begins⟩
  blame cause here same := by
    rw [← same, ← here.source]
    rfl

theorem size_le_length (dialect : Dialect) (cursor : Cursor) :
    (Tokens.scan dialect cursor).size ≤ cursor.rest.length := by
  fun_induction Tokens.scan dialect cursor with
  | case1 => exact Nat.zero_le _
  | case2 => exact Nat.zero_le _
  | case3 cursor position first rest skipped lexeme size read ih =>
      have shorter := cursor.skip_length_le
      rw [skipped, List.length_cons] at shorter
      rw [List.length_drop] at ih
      rw [Tokens.size]
      omega

theorem follows_start (dialect : Dialect) (text : Text) :
    Follows (fun tokens state => Drawn dialect text tokens state.following state.stream)
      (fun fault failure => failure = fault.locate text)
      (Grammar.settle (.ofText dialect text)) (start dialect text) := by
  rw [← bind_pure (Grammar.settle _)]
  exact follows_bind (follows_draw (TokenStream.start dialect text)) fun tokens drawn here => follows_pure here

theorem eq_of_settle {tokens after : Tokens} (settled : (Grammar.settle tokens).run = some (.ok after)) :
    after = tokens := by
  cases tokens <;> cases settled <;> rfl

theorem readAll_settle (dialect : Dialect) (tokens : Tokens) :
    Grammar.readAll dialect tokens = Grammar.settle tokens >>= Grammar.readAll dialect := by
  cases tokens <;> rfl

theorem follows_parse (dialect : Dialect) (text : Text) :
    Follows Eq (fun fault failure => failure = fault.locate text)
      (Grammar.readAll dialect (.ofText dialect text))
      (start dialect text >>= source.readAll dialect (32 * (text.length + 2))) := by
  rw [readAll_settle]
  refine follows_bind (follows_start dialect text).told fun after state ⟨here, settled, _⟩ => ?_
  have short : (Tokens.ofText dialect text).size ≤ text.length := size_le_length dialect ⟨0, text⟩
  rw [eq_of_settle settled] at here ⊢
  refine (hands_stream dialect text).readingAll ?_ here
  rw [Grammar.depthFor]
  omega

/-- Parsing from the stream comes to what parsing the tokens of the whole text comes to. -/
theorem parse_eq (dialect : Dialect) (text : Text) : parse dialect text = Formula.parse dialect text := by
  have follows := follows_parse dialect text
  have ends := Tokens.readAll_ne_none dialect (Tokens.ofText dialect text)
  unfold Follows at follows
  unfold parse Formula.parse
  cases came : (Grammar.readAll dialect (Tokens.ofText dialect text)).run with
  | none => exact absurd came ends
  | some outcome =>
      rw [came] at follows
      cases outcome with
      | error fault =>
          obtain ⟨failure, failed, rfl⟩ := follows
          simp only [failed, came]
          rfl
      | ok term =>
          obtain ⟨other, gave, rfl⟩ := follows
          simp only [gave, came]
          rfl

end Lookahead

variable {dialect : Dialect}

theorem toList_of_tokenize {text : Text} {tokens : List Token} (came : tokenize dialect text = .ok tokens) :
    (Tokens.ofText dialect text).toList = .ok tokens := by
  unfold tokenize at came
  cases list : (Tokens.ofText dialect text).toList with
  | error fault =>
      rw [list] at came
      cases came
  | ok others =>
      rw [list] at came
      cases came
      rfl

theorem proper_ofText (text : Text) : (Tokens.ofText dialect text).All (· ≠ .endOfText) := by
  refine Tokens.all_ofText (fun lexeme possible => ?_) text
  rintro rfl
  cases possible

/-- Texts with the same lexemes are parsed to the same term, or fail alike at corresponding tokens. -/
theorem parse_of_lexemes {one two : Text} {tokens others : List Token}
    (first : tokenize dialect one = .ok tokens) (second : tokenize dialect two = .ok others)
    (same : tokens.map Token.lexeme = others.map Token.lexeme) :
    (∃ term, parse dialect one = .ok term ∧ parse dialect two = .ok term) ∨
    ∃ failure other, parse dialect one = .error failure ∧ parse dialect two = .error other ∧
      Tokens.Corresponding (tokens.zip others) failure.toParseFault other.toParseFault := by
  obtain ⟨unbroken, rfl⟩ := Tokens.toList_eq_ok (toList_of_tokenize first)
  obtain ⟨unbrokenOther, rfl⟩ := Tokens.toList_eq_ok (toList_of_tokenize second)
  have alike := Tokens.alike_of_lexemes unbroken unbrokenOther (proper_ofText one) (proper_ofText two) same
  have follows := Tokens.follows_alike dialect alike
  unfold Follows at follows
  rcases parse_ends closed_trivial (Tokens.all_trivial (.ofText dialect one)) with
    ⟨term, came, parsed, -⟩ | ⟨fault, came, failed, -⟩
  · rw [came] at follows
    obtain ⟨other, gave, rfl⟩ := follows
    refine .inl ⟨term, parsed, ?_⟩
    simp only [parse, gave]
    rfl
  · rw [came] at follows
    obtain ⟨other, gave, corresponding⟩ := follows
    refine .inr ⟨_, other.locate two, failed, ?_, corresponding⟩
    simp only [parse, gave]
    rfl

/-- Parsing depends on a text through its tokens alone. The parser that draws them from the stream, with one
checkpoint, is the parser of all tokens: whenever it goes back, it stands where it was at the checkpoint. -/
theorem parse_by_tokens (dialect : Dialect) :
    (∀ (one two : Text) (tokens others : List Token), tokenize dialect one = .ok tokens →
      tokenize dialect two = .ok others → tokens.map Token.lexeme = others.map Token.lexeme →
      (∃ term, parse dialect one = .ok term ∧ parse dialect two = .ok term) ∨
      ∃ failure other, parse dialect one = .error failure ∧ parse dialect two = .error other ∧
        Tokens.Corresponding (tokens.zip others) failure.toParseFault other.toParseFault) ∧
    (∀ text, Lookahead.parse dialect text = parse dialect text) ∧
    ∀ before after, Lookahead.Ahead (Lookahead.save before) after → after.restore = before.save :=
  ⟨fun _ _ _ _ first second same => parse_of_lexemes first second same, Lookahead.parse_eq dialect,
    fun _ _ ahead => Lookahead.restore_of_ahead ahead⟩

theorem tokenize_within {text : Text} {tokens : List Token}
    (came : (Tokens.scanWithin dialect text.length ⟨0, text⟩).toList = .ok tokens) :
    tokenize dialect text = .ok tokens := by
  rw [tokenize, Tokens.ofText, Tokens.scan_eq_scanWithin dialect text.length ⟨0, text⟩ (Nat.le_refl _), came]
  rfl

/-- A sum is parsed alike with and without blanks and a comment. -/
theorem parse_by_tokens_of_sum :
    (tokenize (.standard {}) (Text.ofString "1+2") =
        .ok [⟨.number (.int 1), 0⟩, ⟨.operator (Text.ofString "+"), 1⟩, ⟨.number (.int 2), 2⟩, ⟨.endOfText, 3⟩] ∧
      tokenize (.standard {}) (Text.ofString "1 /**/+ 2") =
        .ok [⟨.number (.int 1), 0⟩, ⟨.operator (Text.ofString "+"), 6⟩, ⟨.number (.int 2), 8⟩, ⟨.endOfText, 9⟩]) ∧
    ∃ term, parse (.standard {}) (Text.ofString "1+2") = .ok term ∧
      parse (.standard {}) (Text.ofString "1 /**/+ 2") = .ok term := by
  have one : tokenize (.standard {}) (Text.ofString "1+2") = .ok [⟨.number (.int 1), 0⟩,
      ⟨.operator (Text.ofString "+"), 1⟩, ⟨.number (.int 2), 2⟩, ⟨.endOfText, 3⟩] := tokenize_within rfl
  have two : tokenize (.standard {}) (Text.ofString "1 /**/+ 2") = .ok [⟨.number (.int 1), 0⟩,
      ⟨.operator (Text.ofString "+"), 6⟩, ⟨.number (.int 2), 8⟩, ⟨.endOfText, 9⟩] := tokenize_within rfl
  refine ⟨⟨one, two⟩, ?_⟩
  obtain ⟨term, parsed⟩ := parse_isOk (by decide +kernel :
    (reading (.standard {}) (Text.ofString "1+2")).isOk = true)
  rcases (parse_by_tokens (.standard {})).1 _ _ _ _ one two rfl with alike | ⟨failure, other, failed, -⟩
  · exact alike
  · rw [parsed] at failed
    cases failed

end Formula
