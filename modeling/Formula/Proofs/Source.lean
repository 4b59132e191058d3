import Formula.Proofs.Reading

/-!
The grammar over any source of tokens: what comes next, how it is taken, and one checkpoint to go back to.
Wherever a source hands out the tokens that the parser has, it is read like them.
-/

namespace Formula

/-- A reading that ends in a result, in a failure of some kind, or for want of depth. -/
abbrev Attempt (ε : Type) := ExceptT ε Option

/-- Where a parser takes its tokens from. -/
structure Source (σ ε : Type) where
  /-- The token that comes next. -/
  head : σ → Token
  /-- Takes the next token. -/
  take : σ → Attempt ε (Token × σ)
  save : σ → σ
  /-- Back from `after` to what was saved at `before`. -/
  restore (before after : σ) : σ
  blame : σ → ParseFault → ε

/-- The fault that a cause has at a token. -/
def Token.fault (token : Token) (cause : ParseCause) : ParseFault :=
  { cause := cause, position := token.position, found := some token.lexeme }

namespace Source

variable {σ ε : Type} (source : Source σ ε)

def fail {α : Type} (place : σ) (cause : ParseCause) (token : Token) : Attempt ε α :=
  throw (source.blame place (token.fault cause))

/-- Takes the next token if it passes a test. -/
def accept (test : Lexeme → Bool) (place : σ) : Attempt ε (Option (Token × σ)) :=
  if test (source.head place).lexeme then do
    let taken ← source.take place
    pure (some taken)
  else pure none

/-- Takes the next token if it passes a test, and else fails for want of `what`. -/
def expect (what : Text) (test : Lexeme → Bool) (place : σ) : Attempt ε σ := do
  match ← source.accept test place with
  | some (_, after) => pure after
  | none => source.fail place (.expected what) (source.head place)

abbrev Reader (σ ε : Type) := Goal → σ → Attempt ε (Term × σ)

section

variable (dialect : Dialect) (read : Reader σ ε)

def assignTo (target : Term) (sign : Token) (place : σ) : Attempt ε (Term × σ) := do
  match target with
  | .call callee arguments =>
    if dialect.enables (Text.ofString "()=") then
      match Grammar.signature? callee arguments with
      | some (name, parameters) =>
        let (body, place) ← read .assignment place
        pure (.define name parameters body, place)
      | none => source.fail place .badSignature sign
    else source.fail place .definitionDisabled sign
  | .name name =>
    let (value, place) ← read .assignment place
    pure (.assign name value, place)
  | .member object name =>
    let (value, place) ← read .assignment place
    pure (.assignMember object name value, place)
  | _ => source.fail place .badAssignmentTarget sign

/-- An operand that a prefix operator may stand before: the operator is taken, and given back if it is not
one here. -/
def readFactor (place : σ) : Attempt ε (Term × σ) := do
  let before := source.save place
  match ← source.accept (Grammar.isPrefixOperator dialect) before with
  | none => read .power before
  | some (operator, after) =>
    let symbol := Grammar.symbolOf operator.lexeme
    let isSign := symbol = Text.ofString "-" ∨ symbol = Text.ofString "+"
    if ¬ isSign ∧ Grammar.isOpenParenthesis (source.head after).lexeme then
      read .power (source.restore before after)
    else if ¬ isSign ∧ Grammar.endsOperand (source.head after).lexeme then
      read .atom (source.restore before after)
    else
      let (operand, place) ← read .factor after
      pure (.unary symbol operand, place)

def readSteps (object : Term) (place : σ) : Attempt ε (Term × σ) := do
  match ← source.accept (Grammar.isOperator ".") place with
  | some (point, place) =>
    if dialect.options.memberAccess then
      match ← source.accept (fun lexeme => (Grammar.memberName? lexeme).isSome) place with
      | some (token, place) => read (.steps (.member object ((Grammar.memberName? token.lexeme).getD []))) place
      | none => source.fail place (.expected (Text.ofString "NAME")) (source.head place)
    else source.fail place .memberDisabled point
  | none =>
    match ← source.accept Grammar.isOpenBracket place with
    | some (bracket, place) =>
      if dialect.enables Term.indexSymbol then
        let (index, place) ← read .expression place
        let place ← source.expect (Text.ofString "]") Grammar.isCloseBracket place
        read (.steps (.binary Term.indexSymbol object index)) place
      else source.fail place .arrayDisabled bracket
    | none => pure (object, place)

def readAtom (place : σ) : Attempt ε (Term × σ) :=
  match (source.head place).lexeme with
  | .name name => do
    let (_, place) ← source.take place
    pure (.name name, place)
  | .operator symbol =>
    if dialect.isPrefixOperator symbol then do
      let (_, place) ← source.take place
      pure (.name symbol, place)
    else source.fail place (.unexpected (.operator symbol)) (source.head place)
  | .number value => do
    let (_, place) ← source.take place
    pure (.literal value, place)
  | .text content => do
    let (_, place) ← source.take place
    pure (.literal (.text content), place)
  | .openParenthesis => do
    let (_, place) ← source.take place
    let (term, place) ← read .expression place
    let place ← source.expect (Text.ofString ")") Grammar.isCloseParenthesis place
    pure (term, place)
  | .openBracket => do
    let (_, place) ← source.take place
    match ← source.accept Grammar.isCloseBracket place with
    | some (_, place) => pure (.array [], place)
    | none => read (.items .array []) place
  | lexeme => source.fail place (.unexpected lexeme) (source.head place)

/-- One step towards a goal. -/
def step : Reader σ ε
  | .expression, place => do
    let (first, place) ← read .assignment place
    match ← source.accept Grammar.isSemicolon place with
    | none => pure (first, place)
    | some (_, place) =>
      if Grammar.endsStatement (source.head place).lexeme then pure (.statement first, place)
      else
        let (rest, place) ← read .expression place
        pure (.sequence first rest, place)
  | .assignment, place => do
    let (target, place) ← read .conditional place
    match ← source.accept (Grammar.isOperator "=") place with
    | none => pure (target, place)
    | some (sign, place) => assignTo source dialect read target sign place
  | .conditional, place => do
    let (condition, place) ← read (.chain .disjunction) place
    match ← source.accept (Grammar.isOperator "?") place with
    | none => pure (condition, place)
    | some (_, place) =>
      let (yes, place) ← read .conditional place
      let place ← source.expect (Text.ofString ":") (Grammar.isOperator ":") place
      let (no, place) ← read .conditional place
      pure (.conditional condition yes no, place)
  | .chain level, place => do
    let (left, place) ← read level.operand place
    read (.chainRest level left) place
  | .chainRest level left, place => do
    match ← source.accept (fun lexeme => level.symbols.any (lexeme.isOperator ·)) place with
    | none => pure (left, place)
    | some (operator, place) =>
      let (right, place) ← read level.operand place
      read (.chainRest level (level.build (Grammar.symbolOf operator.lexeme) left right)) place
  | .factor, place => readFactor source dialect read place
  | .power, place => do
    let (base, place) ← read .suffixed place
    match ← source.accept (Grammar.isOperator "^") place with
    | none => pure (base, place)
    | some (_, place) =>
      let (exponent, place) ← read .factor place
      pure (.binary (Text.ofString "^") base exponent, place)
  | .suffixed, place => do
    let (operand, place) ← read .application place
    read (.factorials operand) place
  | .factorials operand, place => do
    match ← source.accept (Grammar.isOperator "!") place with
    | none => pure (operand, place)
    | some (_, place) => read (.factorials (.unary (Text.ofString "!") operand)) place
  | .application, place => do
    match ← source.accept (Grammar.isPrefixOperator dialect) place with
    | some (operator, place) =>
      let (operand, place) ← read .atom place
      pure (.unary (Grammar.symbolOf operator.lexeme) operand, place)
    | none =>
      let (callee, place) ← read .access place
      read (.calls callee) place
  | .calls callee, place => do
    match ← source.accept Grammar.isOpenParenthesis place with
    | none => pure (callee, place)
    | some (_, place) =>
      match ← source.accept Grammar.isCloseParenthesis place with
      | some (_, place) => read (.calls (.call callee [])) place
      | none =>
        let (call, place) ← read (.items (.call callee) []) place
        read (.calls call) place
  | .access, place => do
    let (object, place) ← read .atom place
    read (.steps object) place
  | .steps object, place => readSteps source dialect read object place
  | .atom, place => readAtom source dialect read place
  | .items shape done, place => do
    let (item, place) ← read .expression place
    match ← source.accept Grammar.isComma place with
    | some (_, place) => read (.items shape (done ++ [item])) place
    | none =>
      let what := match shape.closer.value with
        | .text sign => sign
        | _ => []
      let place ← source.expect what (Grammar.isCloser shape) place
      pure (shape.build (done ++ [item]), place)

end

/-- Reads towards a goal with a bound on the depth of the recursion. -/
def read (dialect : Dialect) : Nat → Reader σ ε
  | 0 => fun _ _ => none
  | depth + 1 => step source dialect (read dialect depth)

def isEnd : Lexeme → Bool
  | .endOfText => true
  | _ => false

/-- Reads one expression that reaches to the end. -/
def readAll (dialect : Dialect) (depth : Nat) (place : σ) : Attempt ε Term := do
  let (term, place) ← read source dialect depth .expression place
  let _ ← source.expect (Text.ofString "EOF") isEnd place
  pure term

end Source

/-! A source that hands out tokens. -/

section

variable {α β γ δ ε : Type} {results : α → β → Prop} {faults : ParseFault → ε → Prop}

/-- Wherever the parser comes to a result or a fault, the attempt comes to a like one. -/
def Follows (results : α → β → Prop) (faults : ParseFault → ε → Prop) (reading : Parse α)
    (attempt : Attempt ε β) : Prop :=
  match reading.run with
  | some (.ok one) => ∃ two, attempt.run = some (.ok two) ∧ results one two
  | some (.error fault) => ∃ failure, attempt.run = some (.error failure) ∧ faults fault failure
  | none => True

theorem follows_pure {one : α} {two : β} (related : results one two) :
    Follows results faults (pure one) (pure two : Attempt ε β) := ⟨two, rfl, related⟩

theorem follows_throw {fault : ParseFault} {failure : ε} (related : faults fault failure) :
    Follows results faults (throw fault) (throw failure : Attempt ε β) := ⟨failure, rfl, related⟩

theorem follows_bind {final : γ → δ → Prop} {reading : Parse α} {attempt : Attempt ε β} {next : α → Parse γ}
    {other : β → Attempt ε δ} (first : Follows results faults reading attempt)
    (follows : ∀ one two, results one two → Follows final faults (next one) (other two)) :
    Follows final faults (reading >>= next) (attempt >>= other) := by
  change Follows final faults (ExceptT.bind reading next) (ExceptT.bind attempt other)
  unfold Follows at first ⊢
  simp only [ExceptT.run, ExceptT.bind, ExceptT.mk] at first ⊢
  cases came : reading with
  | none => trivial
  | some outcome =>
      rw [came] at first
      cases outcome with
      | error fault =>
          obtain ⟨failure, failed, related⟩ := first
          exact ⟨failure, by rw [failed]; rfl, related⟩
      | ok one =>
          obtain ⟨two, gave, related⟩ := first
          rw [gave]
          exact follows one two related

/-- Readings that come to an end and are followed closely come to the same. -/
theorem Follows.run_eq {reading : Parse α} {attempt : Attempt ParseFault α} {close : ParseFault → ParseFault → Prop}
    (follows : Follows Eq close reading attempt) (same : ∀ fault other, close fault other → fault = other)
    (ends : reading.run ≠ none) : attempt.run = reading.run := by
  unfold Follows at follows
  cases came : reading.run with
  | none => exact absurd came ends
  | some outcome =>
      rw [came] at follows
      cases outcome with
      | error fault =>
          obtain ⟨other, failed, related⟩ := follows
          rw [failed, same fault other related]
      | ok one =>
          obtain ⟨two, gave, equal⟩ := follows
          rw [gave, equal]

/-- What both came to may be remembered. -/
theorem Follows.told {reading : Parse α} {attempt : Attempt ε β} (follows : Follows results faults reading attempt) :
    Follows (fun one two => results one two ∧ reading.run = some (.ok one) ∧ attempt.run = some (.ok two)) faults
      reading attempt := by
  unfold Follows at follows ⊢
  cases came : reading.run with
  | none => trivial
  | some outcome =>
      rw [came] at follows
      cases outcome with
      | error fault => exact follows
      | ok one =>
          obtain ⟨two, gave, related⟩ := follows
          exact ⟨two, gave, related, rfl, gave⟩

end

/-- A source hands out the tokens that are related to its places. -/
structure Hands {σ ε : Type} (source : Source σ ε) (related : Tokens → σ → Prop) (tokens : Token → Token → Prop)
    (faults : ParseFault → ε → Prop) : Prop where
  whole : ∀ {rest place}, related rest place → rest.Whole
  proper : ∀ {token rest place}, related (.cons token rest) place → token.lexeme ≠ .endOfText
  lexeme : ∀ {token other}, tokens token other → token.lexeme = other.lexeme
  head : ∀ {rest place}, related rest place → tokens rest.head (source.head place)
  take : ∀ {token rest place}, related (.cons token rest) place →
    Follows (fun after taken => tokens token taken.1 ∧ related after taken.2) faults
      (Grammar.settle rest) (source.take place)
  finish : ∀ {position place}, related (.finish position) place →
    ∃ taken, (source.take place).run = some (.ok taken)
  save : ∀ {rest place}, related rest place → related rest (source.save place)
  restore : ∀ {rest place token after}, related rest place →
    (source.take (source.save place)).run = some (.ok (token, after)) →
    related rest (source.restore (source.save place) after)
  blame : ∀ {rest place token other} cause, related rest place → tokens token other →
    faults (token.fault cause) (source.blame place (other.fault cause))

namespace Hands

variable {σ ε : Type} {source : Source σ ε} {related : Tokens → σ → Prop} {tokens : Token → Token → Prop}
  {faults : ParseFault → ε → Prop} (hands : Hands source related tokens faults)
  {dialect : Dialect} {rest : Tokens} {place : σ}

include hands

theorem fail {α β : Type} {results : α → β → Prop} {token other : Token} (cause : ParseCause)
    (here : related rest place) (same : tokens token other) :
    Follows results faults (Grammar.fail cause token) (source.fail place cause other) :=
  follows_throw (hands.blame cause here same)

theorem failHere {α β : Type} {results : α → β → Prop} (cause : ParseCause) (here : related rest place) :
    Follows results faults (Grammar.fail cause rest.head) (source.fail place cause (source.head place)) :=
  hands.fail cause here (hands.head here)

theorem accept (test : Lexeme → Bool) (stops : test .endOfText = false) (here : related rest place) :
    Follows (Option.Rel fun taken other => tokens taken.1 other.1 ∧ related taken.2 other.2 ∧
        (source.take place).run = some (.ok other)) faults
      (Grammar.accept test rest) (source.accept test place) := by
  have head := hands.lexeme (hands.head here)
  have passes : test rest.head.lexeme = false → source.accept test place = pure none := by
    intro fails
    rw [Source.accept, ← head, fails]
    rfl
  cases rest with
  | cons token after =>
      change Follows _ _ (if test token.lexeme = true then _ else _) _
      split
      · rename_i passed
        have head : token.lexeme = (source.head place).lexeme := head
        rw [Source.accept, ← head, if_pos passed]
        refine follows_bind (hands.take here).told fun after taken ⟨⟨same, onward⟩, _, came⟩ => ?_
        exact follows_pure (.some ⟨same, onward, came⟩)
      · rename_i failed
        rw [passes (eq_false_of_ne_true failed)]
        exact follows_pure .none
  | finish position =>
      rw [passes stops]
      exact follows_pure .none
  | broken fault =>
      rw [passes stops]
      exact follows_pure .none

theorem expect (what : Text) (test : Lexeme → Bool) (stops : test .endOfText = false) (here : related rest place) :
    Follows related faults (Grammar.expect what test rest) (source.expect what test place) := by
  refine follows_bind (hands.accept test stops here) fun found other same => ?_
  cases same with
  | none => exact hands.failHere _ here
  | some taken => exact follows_pure taken.2.1

/-- What two readers come to: the same term, and what is left is related. -/
abbrev Alike (related : Tokens → σ → Prop) (one : Term × Tokens) (two : Term × σ) : Prop :=
  one.1 = two.1 ∧ related one.2 two.2

section

variable {read : Grammar.Reader} {other : Source.Reader σ ε}
  (reads : ∀ (goal : Goal) {rest : Tokens} {place : σ}, related rest place →
    Follows (Alike related) faults (read goal rest) (other goal place))

include reads

theorem assignTo {target : Term} {sign signed : Token} (same : tokens sign signed) (here : related rest place) :
    Follows (Alike related) faults (Grammar.assignTo dialect read target sign rest)
      (source.assignTo dialect other target signed place) := by
  have value (build : Term → Term) : Follows (Alike related) faults
      (read .assignment rest >>= fun result => pure (build result.1, result.2))
      (other .assignment place >>= fun result => pure (build result.1, result.2)) :=
    follows_bind (reads _ here) fun _ _ ⟨equal, onward⟩ => follows_pure ⟨congrArg build equal, onward⟩
  cases target with
  | call callee arguments =>
      unfold Grammar.assignTo Source.assignTo
      cases dialect.enables (Text.ofString "()=") with
      | false => exact hands.fail .definitionDisabled here same
      | true =>
          cases came : Grammar.signature? callee arguments with
          | none =>
              simp only [came, if_true]
              exact hands.fail .badSignature here same
          | some signature =>
              simp only [came, if_true]
              exact value (.define signature.1 signature.2)
  | name name => exact value (.assign name)
  | member object name => exact value (.assignMember object name)
  | _ => exact hands.fail .badAssignmentTarget here same

theorem readFactor (here : related rest place) :
    Follows (Alike related) faults (Grammar.readFactor dialect read rest)
      (source.readFactor dialect other place) := by
  unfold Grammar.readFactor Source.readFactor
  refine follows_bind (hands.accept _ rfl (hands.save here)) fun found taken same => ?_
  cases same with
  | none => exact reads _ (hands.save here)
  | some both =>
      obtain ⟨operator, onward, came⟩ := both
      have back := hands.restore here came
      simp only [hands.lexeme operator, hands.lexeme (hands.head onward)]
      split
      · exact reads _ back
      · split
        · exact reads _ back
        · exact follows_bind (reads _ onward) fun _ _ ⟨equal, last⟩ => follows_pure ⟨congrArg _ equal, last⟩

theorem readSteps {object : Term} (here : related rest place) :
    Follows (Alike related) faults (Grammar.readSteps dialect read object rest)
      (source.readSteps dialect other object place) := by
  unfold Grammar.readSteps Source.readSteps
  refine follows_bind (hands.accept _ rfl here) fun found taken same => ?_
  cases same with
  | some both =>
      obtain ⟨point, afterPoint, -⟩ := both
      simp only
      split
      · refine follows_bind (hands.accept _ rfl afterPoint) fun found taken same => ?_
        cases same with
        | none => exact hands.failHere _ afterPoint
        | some both =>
            simp only [hands.lexeme both.1]
            exact reads _ both.2.1
      · exact hands.fail _ afterPoint point
  | none =>
      refine follows_bind (hands.accept _ rfl here) fun found taken same => ?_
      cases same with
      | none => exact follows_pure ⟨rfl, here⟩
      | some both =>
          obtain ⟨bracket, afterBracket, -⟩ := both
          simp only
          split
          · refine follows_bind (reads _ afterBracket) fun index _ ⟨equal, afterIndex⟩ => ?_
            refine follows_bind (hands.expect _ _ rfl afterIndex) fun _ _ onward => ?_
            simp only [equal]
            exact reads _ onward
          · exact hands.fail _ afterBracket bracket

theorem readAtom (here : related rest place) :
    Follows (Alike related) faults (Grammar.readAtom dialect read rest)
      (source.readAtom dialect other place) := by
  have head := hands.lexeme (hands.head here)
  have ends (position : Nat) (same : rest.head = ⟨.endOfText, position⟩) :
      Follows (Alike related) faults (Grammar.fail (.unexpected .endOfText) rest.head)
        (source.readAtom dialect other place) := by
    have atEnd : (source.head place).lexeme = .endOfText := by rw [← head, same]
    rw [Source.readAtom, atEnd]
    exact hands.failHere _ here
  cases rest with
  | finish position => exact ends position rfl
  | broken fault => exact ends fault.position rfl
  | cons token after =>
      obtain ⟨lexeme, position⟩ := token
      have head : lexeme = (source.head place).lexeme := head
      have taken := hands.take here
      unfold Grammar.readAtom Source.readAtom
      rw [← head]
      cases lexeme with
      | name name => exact follows_bind taken fun _ _ both => follows_pure ⟨rfl, both.2⟩
      | operator symbol =>
          simp only
          split
          · exact follows_bind taken fun _ _ both => follows_pure ⟨rfl, both.2⟩
          · exact hands.failHere _ here
      | number value => exact follows_bind taken fun _ _ both => follows_pure ⟨rfl, both.2⟩
      | text content => exact follows_bind taken fun _ _ both => follows_pure ⟨rfl, both.2⟩
      | openParenthesis =>
          refine follows_bind taken fun _ _ both => ?_
          refine follows_bind (reads _ both.2) fun _ _ ⟨equal, inner⟩ => ?_
          exact follows_bind (hands.expect _ _ rfl inner) fun _ _ onward => follows_pure ⟨equal, onward⟩
      | openBracket =>
          refine follows_bind taken fun _ _ both => ?_
          refine follows_bind (hands.accept _ rfl both.2) fun found taken same => ?_
          cases same with
          | some closer => exact follows_pure ⟨rfl, closer.2.1⟩
          | none => exact reads _ both.2
      | _ => exact hands.failHere _ here

theorem step (goal : Goal) (here : related rest place) :
    Follows (Alike related) faults (Grammar.step dialect read goal rest) (source.step dialect other goal place) := by
  cases goal with
  | expression =>
      refine follows_bind (reads _ here) fun _ _ ⟨equal, afterFirst⟩ => ?_
      simp only [equal]
      refine follows_bind (hands.accept _ rfl afterFirst) fun found taken same => ?_
      cases same with
      | none => exact follows_pure ⟨rfl, afterFirst⟩
      | some both =>
          simp only [hands.lexeme (hands.head both.2.1)]
          split
          · exact follows_pure ⟨rfl, both.2.1⟩
          · exact follows_bind (reads _ both.2.1) fun _ _ ⟨equalRest, last⟩ =>
              follows_pure ⟨congrArg _ equalRest, last⟩
  | assignment =>
      refine follows_bind (reads _ here) fun _ _ ⟨equal, afterTarget⟩ => ?_
      simp only [equal]
      refine follows_bind (hands.accept _ rfl afterTarget) fun found taken same => ?_
      cases same with
      | none => exact follows_pure ⟨rfl, afterTarget⟩
      | some both => exact hands.assignTo reads both.1 both.2.1
  | conditional =>
      refine follows_bind (reads _ here) fun _ _ ⟨equal, afterCondition⟩ => ?_
      simp only [equal]
      refine follows_bind (hands.accept _ rfl afterCondition) fun found taken same => ?_
      cases same with
      | none => exact follows_pure ⟨rfl, afterCondition⟩
      | some both =>
          refine follows_bind (reads _ both.2.1) fun _ _ ⟨equalYes, afterYes⟩ => ?_
          refine follows_bind (hands.expect _ _ rfl afterYes) fun _ _ afterColon => ?_
          refine follows_bind (reads _ afterColon) fun _ _ ⟨equalNo, last⟩ => ?_
          simp only [equalYes, equalNo]
          exact follows_pure ⟨rfl, last⟩
  | chain level =>
      refine follows_bind (reads _ here) fun _ _ ⟨equal, afterLeft⟩ => ?_
      simp only [equal]
      exact reads _ afterLeft
  | chainRest level left =>
      have stops : (level.symbols.any (Lexeme.endOfText.isOperator ·)) = false := by
        cases level <;> rfl
      refine follows_bind (hands.accept _ stops here) fun found taken same => ?_
      cases same with
      | none => exact follows_pure ⟨rfl, here⟩
      | some both =>
          refine follows_bind (reads _ both.2.1) fun _ _ ⟨equal, afterRight⟩ => ?_
          simp only [equal, hands.lexeme both.1]
          exact reads _ afterRight
  | factor => exact hands.readFactor reads here
  | power =>
      refine follows_bind (reads _ here) fun _ _ ⟨equal, afterBase⟩ => ?_
      simp only [equal]
      refine follows_bind (hands.accept _ rfl afterBase) fun found taken same => ?_
      cases same with
      | none => exact follows_pure ⟨rfl, afterBase⟩
      | some both =>
          exact follows_bind (reads _ both.2.1) fun _ _ ⟨equalExponent, last⟩ =>
            follows_pure ⟨congrArg _ equalExponent, last⟩
  | suffixed =>
      refine follows_bind (reads _ here) fun _ _ ⟨equal, afterOperand⟩ => ?_
      simp only [equal]
      exact reads _ afterOperand
  | factorials operand =>
      refine follows_bind (hands.accept _ rfl here) fun found taken same => ?_
      cases same with
      | none => exact follows_pure ⟨rfl, here⟩
      | some both => exact reads _ both.2.1
  | application =>
      refine follows_bind (hands.accept _ rfl here) fun found taken same => ?_
      cases same with
      | some both =>
          refine follows_bind (reads _ both.2.1) fun _ _ ⟨equal, last⟩ => ?_
          simp only [equal, hands.lexeme both.1]
          exact follows_pure ⟨rfl, last⟩
      | none =>
          refine follows_bind (reads _ here) fun _ _ ⟨equal, afterCallee⟩ => ?_
          simp only [equal]
          exact reads _ afterCallee
  | calls callee =>
      refine follows_bind (hands.accept _ rfl here) fun found taken same => ?_
      cases same with
      | none => exact follows_pure ⟨rfl, here⟩
      | some both =>
          refine follows_bind (hands.accept _ rfl both.2.1) fun found taken same => ?_
          cases same with
          | some closer => exact reads _ closer.2.1
          | none =>
              refine follows_bind (reads _ both.2.1) fun _ _ ⟨equal, afterCall⟩ => ?_
              simp only [equal]
              exact reads _ afterCall
  | access =>
      refine follows_bind (reads _ here) fun _ _ ⟨equal, afterObject⟩ => ?_
      simp only [equal]
      exact reads _ afterObject
  | steps object => exact hands.readSteps reads here
  | atom => exact hands.readAtom reads here
  | items shape done =>
      have stops : Grammar.isCloser shape .endOfText = false := by
        cases shape <;> rfl
      refine follows_bind (reads _ here) fun _ _ ⟨equal, afterItem⟩ => ?_
      simp only [equal]
      refine follows_bind (hands.accept _ rfl afterItem) fun found taken same => ?_
      cases same with
      | some both => exact reads _ both.2.1
      | none =>
          exact follows_bind (hands.expect _ _ stops afterItem) fun _ _ onward => follows_pure ⟨rfl, onward⟩

end

/-- The source is read like its tokens, at every depth that is enough for these. -/
theorem reading {depth deeper : Nat} (enough : depth ≤ deeper) (goal : Goal) (here : related rest place) :
    Follows (Alike related) faults (Grammar.read dialect depth goal rest) (source.read dialect deeper goal place) := by
  induction depth generalizing deeper goal rest place with
  | zero => trivial
  | succ depth ih =>
      cases deeper with
      | zero => cases enough
      | succ deeper => exact hands.step (fun goal _ _ here => ih (Nat.le_of_succ_le_succ enough) goal here) goal here

theorem readingAll {deeper : Nat} (enough : Grammar.depthFor rest ≤ deeper) (here : related rest place) :
    Follows Eq faults (Grammar.readAll dialect rest) (source.readAll dialect deeper place) := by
  have whole : Grammar.settle rest = pure rest := hands.whole here
  unfold Grammar.readAll Source.readAll
  rw [whole, pure_bind]
  refine follows_bind (hands.reading enough .expression here) fun one two ⟨equal, last⟩ => ?_
  obtain ⟨term, after⟩ := one
  have head := hands.lexeme (hands.head last)
  cases after with
  | finish position =>
      obtain ⟨taken, came⟩ := hands.finish last
      have taken' : source.take two.2 = pure taken := came
      have atEnd : Source.isEnd (source.head two.2).lexeme = true := by rw [← head]; rfl
      simp only [Source.expect, Source.accept, if_pos atEnd, taken', pure_bind]
      exact follows_pure equal
  | broken fault => cases hands.whole last
  | cons token after =>
      have goesOn : Source.isEnd (source.head two.2).lexeme = false := by
        have proper := hands.proper last
        have head : token.lexeme = (source.head two.2).lexeme := head
        rw [← head]
        cases came : token.lexeme with
        | endOfText => exact absurd came proper
        | _ => rfl
      simp only [Source.expect, Source.accept, goesOn, Bool.false_eq_true, if_false, pure_bind]
      exact hands.failHere _ last

end Hands

end Formula
