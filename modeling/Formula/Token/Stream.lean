import Formula.Token.Scan

/-!
The tokens of a text: one at a time with a checkpoint, or all at once.
-/

namespace Formula

/-- A place in a text, with what follows it. -/
structure Cursor where
  position : Nat
  rest : Text
  deriving Inhabited

namespace Cursor

def isBlank (point : CodePoint) : Bool :=
  point == ' '.toNat || point == '\t'.toNat || point == '\n'.toNat || point == '\r'.toNat

/-- Where a reader stands between two tokens: outside comments, on the second sign that opens or
closes one, or inside. -/
inductive GapPart where
  | outside
  | opening
  | inside
  | closing

/-- The place after all blanks and comments. A comment may stay open to the end of the text. -/
def skipGap (part : GapPart) (position : Nat) : Text → Cursor
  | [] => ⟨position, []⟩
  | point :: rest =>
    match part with
    | .opening => skipGap .inside (position + 1) rest
    | .closing => skipGap .outside (position + 1) rest
    | .inside =>
      if point = '*'.toNat ∧ rest.head? = some '/'.toNat then skipGap .closing (position + 1) rest
      else skipGap .inside (position + 1) rest
    | .outside =>
      if isBlank point then skipGap .outside (position + 1) rest
      else if point = '/'.toNat ∧ rest.head? = some '*'.toNat then
        skipGap .opening (position + 1) rest
      else ⟨position, point :: rest⟩

def skip (cursor : Cursor) : Cursor := skipGap .outside cursor.position cursor.rest

theorem skipGap_length_le (part : GapPart) (position : Nat) (text : Text) :
    (skipGap part position text).rest.length ≤ text.length := by
  fun_induction skipGap part position text <;> simp_all <;> omega

theorem skip_length_le (cursor : Cursor) : cursor.skip.rest.length ≤ cursor.rest.length :=
  skipGap_length_le .outside cursor.position cursor.rest

/-- The next token, and the place after it. -/
def next (dialect : Dialect) (cursor : Cursor) : Except ParseFault (Token × Cursor) :=
  match cursor.skip with
  | ⟨position, []⟩ => .ok (⟨.endOfText, position⟩, ⟨position, []⟩)
  | ⟨position, first :: rest⟩ =>
    match Scan.token dialect first rest with
    | .error (cause, offset) => .error { cause := cause, position := position + offset }
    | .ok (lexeme, size) => .ok (⟨lexeme, position⟩, ⟨position + size + 1, rest.drop size⟩)

end Cursor

/-- All tokens of a text, up to its end or to the first fault. -/
inductive Tokens where
  | finish (position : Nat)
  | broken (fault : ParseFault)
  | cons (token : Token) (rest : Tokens)
  deriving Inhabited

namespace Tokens

/-- The tokens from a place on. -/
def scan (dialect : Dialect) (cursor : Cursor) : Tokens :=
  match _found : cursor.skip with
  | ⟨position, []⟩ => .finish position
  | ⟨position, first :: rest⟩ =>
    match Scan.token dialect first rest with
    | .error (cause, offset) => .broken { cause := cause, position := position + offset }
    | .ok (lexeme, size) =>
      .cons ⟨lexeme, position⟩ (scan dialect ⟨position + size + 1, rest.drop size⟩)
termination_by cursor.rest.length
decreasing_by
  have shorter := cursor.skip_length_le
  simp only [_found, List.length_cons, List.length_drop] at shorter ⊢
  omega

def ofText (dialect : Dialect) (source : Text) : Tokens := scan dialect ⟨0, source⟩

/-- The tokens as a list that ends in the end of the text. -/
def toList : Tokens → Except ParseFault (List Token)
  | .finish position => .ok [⟨.endOfText, position⟩]
  | .broken fault => .error fault
  | .cons token rest => rest.toList.map (token :: ·)

/-- How many tokens there are before the end. -/
def size : Tokens → Nat
  | .finish _ | .broken _ => 0
  | .cons _ rest => rest.size + 1

/-- The token that comes next. -/
def head : Tokens → Token
  | .finish position => ⟨.endOfText, position⟩
  | .broken fault => ⟨.endOfText, fault.position⟩
  | .cons token _ => token

end Tokens

/-- The tokens of a source text. -/
def tokenize (dialect : Dialect) (source : Text) : Except ParseFailure (List Token) :=
  (Tokens.ofText dialect source).toList.mapError (·.locate source)

/-- A text read token by token, with one checkpoint to go back to. -/
structure TokenStream where
  dialect : Dialect
  source : Text
  cursor : Cursor
  checkpoint : Cursor

namespace TokenStream

def start (dialect : Dialect) (source : Text) : TokenStream :=
  ⟨dialect, source, ⟨0, source⟩, ⟨0, source⟩⟩

def save (stream : TokenStream) : TokenStream := { stream with checkpoint := stream.cursor }

def restore (stream : TokenStream) : TokenStream := { stream with cursor := stream.checkpoint }

/-- The next token. After a fault the stream stands where the faulty token starts. -/
def next (stream : TokenStream) : Except ParseFailure Token × TokenStream :=
  match stream.cursor.next stream.dialect with
  | .ok (token, after) => (.ok token, { stream with cursor := after })
  | .error fault => (.error (fault.locate stream.source), { stream with cursor := stream.cursor.skip })

end TokenStream

end Formula
