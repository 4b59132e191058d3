import Formula.Term
import Formula.Token.Stream

/-!
The grammar: which sequences of tokens are expressions, and which terms they denote.

The parser is one function of a goal and the remaining tokens. Each goal is reached either after a
token was taken or from a goal that binds less tightly, so a bound on the depth of the recursion
follows from the number of tokens.
-/

namespace Formula

/-- The result of parsing, a fault, or nothing when the depth was exhausted. -/
abbrev Parse := ExceptT ParseFault Option

/-- The levels of operators that chain to the left, from the loosest. -/
inductive Level where
  | disjunction
  | conjunction
  | comparison
  | sum
  | product
  deriving DecidableEq, Repr

namespace Level

def symbols : Level → List Text
  | .disjunction => [Text.ofString "or"]
  | .conjunction => [Text.ofString "and"]
  | .comparison => ["==", "!=", "<", "<=", ">=", ">", "in"].map Text.ofString
  | .sum => ["+", "-", "||"].map Text.ofString
  | .product => ["*", "/", "%"].map Text.ofString

/-- The term for an operator of the level. -/
def build (level : Level) (symbol : Text) (left right : Term) : Term :=
  match level with
  | .disjunction | .conjunction => .shortCircuit symbol left right
  | _ => .binary symbol left right

end Level

/-- What a bracketed list of items becomes. -/
inductive ListShape where
  | call (callee : Term)
  | array

namespace ListShape

def build (shape : ListShape) (items : List Term) : Term :=
  match shape with
  | .call callee => .call callee items
  | .array => .array items

def closer : ListShape → Lexeme
  | .call _ => .closeParenthesis
  | .array => .closeBracket

end ListShape

/-- What to read next; the goals with a term go on from what was read so far. -/
inductive Goal where
  | expression
  | assignment
  | conditional
  | chain (level : Level)
  | chainRest (level : Level) (left : Term)
  | factor
  | power
  | suffixed
  | factorials (operand : Term)
  | application
  | calls (callee : Term)
  | access
  | steps (object : Term)
  | atom
  | items (shape : ListShape) (done : List Term)

/-- The goal for the operands of a level. -/
def Level.operand : Level → Goal
  | .disjunction => .chain .conjunction
  | .conjunction => .chain .comparison
  | .comparison => .chain .sum
  | .sum => .chain .product
  | .product => .factor

namespace Grammar

def fail {α : Type} (cause : ParseCause) (token : Token) : Parse α :=
  throw { cause := cause, position := token.position, found := some token.lexeme }

/-- The tokens, unless the text breaks off here. -/
def settle : Tokens → Parse Tokens
  | .broken fault => throw fault
  | tokens => pure tokens

/-- Takes the next token if it passes a test. -/
def accept (test : Lexeme → Bool) (tokens : Tokens) : Parse (Option (Token × Tokens)) :=
  match tokens with
  | .cons token rest =>
    if test token.lexeme then do
      let after ← settle rest
      pure (some (token, after))
    else pure none
  | _ => pure none

def isOpenParenthesis : Lexeme → Bool
  | .openParenthesis => true
  | _ => false

def isCloseParenthesis : Lexeme → Bool
  | .closeParenthesis => true
  | _ => false

def isOpenBracket : Lexeme → Bool
  | .openBracket => true
  | _ => false

def isCloseBracket : Lexeme → Bool
  | .closeBracket => true
  | _ => false

def isComma : Lexeme → Bool
  | .comma => true
  | _ => false

def isSemicolon : Lexeme → Bool
  | .semicolon => true
  | _ => false

def isOperator (symbol : String) : Lexeme → Bool
  | .operator found => found = Text.ofString symbol
  | _ => false

def isCloser (shape : ListShape) (lexeme : Lexeme) : Bool :=
  match shape with
  | .call _ => isCloseParenthesis lexeme
  | .array => isCloseBracket lexeme

/-- Takes the next token if it passes a test, and else fails for want of `what`. -/
def expect (what : Text) (test : Lexeme → Bool) (tokens : Tokens) : Parse Tokens := do
  match ← accept test tokens with
  | some (_, rest) => pure rest
  | none => fail (.expected what) tokens.head

/-- The prefix operator that a token is. -/
def prefixSymbol? (dialect : Dialect) : Lexeme → Option Text
  | .operator symbol => if dialect.isPrefixOperator symbol then some symbol else none
  | _ => none

def isPrefixOperator (dialect : Dialect) (lexeme : Lexeme) : Bool :=
  (prefixSymbol? dialect lexeme).isSome

/-- The symbol of an operator token. -/
def symbolOf : Lexeme → Text
  | .operator symbol => symbol
  | _ => []

/-- The member that a token names after a point: a name, or an operator that is a word. -/
def memberName? : Lexeme → Option Text
  | .name name => some name
  | .operator symbol => if Text.isIdentifier symbol then some symbol else none
  | _ => none

/-- Whether a statement after a semicolon is left out here. -/
def endsStatement : Lexeme → Bool
  | .endOfText | .closeParenthesis => true
  | _ => false

/-- Whether a prefix operator that stands before this token is meant as a value. -/
def endsOperand : Lexeme → Bool
  | .semicolon | .comma | .endOfText | .closeParenthesis => true
  | _ => false

/-- The name and the parameters of a definition, each a bare name. -/
def signature? (callee : Term) (arguments : List Term) : Option (Text × List Text) := do
  let name ← callee.name?
  let parameters ← arguments.mapM Term.name?
  some (name, parameters)

abbrev Reader := Goal → Tokens → Parse (Term × Tokens)

/-- Reads the right-hand side of an assignment to what was read before the sign. -/
def assignTo (dialect : Dialect) (read : Reader) (target : Term) (sign : Token)
    (tokens : Tokens) : Parse (Term × Tokens) := do
  match target with
  | .call callee arguments =>
    if dialect.enables (Text.ofString "()=") then
      match signature? callee arguments with
      | some (name, parameters) =>
        let (body, tokens) ← read .assignment tokens
        pure (.define name parameters body, tokens)
      | none => fail .badSignature sign
    else fail .definitionDisabled sign
  | .name name =>
    let (value, tokens) ← read .assignment tokens
    pure (.assign name value, tokens)
  | .member object name =>
    let (value, tokens) ← read .assignment tokens
    pure (.assignMember object name value, tokens)
  | _ => fail .badAssignmentTarget sign

/-- Reads an operand that a prefix operator may stand before. A word operator before a parenthesis
takes the parenthesis alone; before the end of an operand it is a value. -/
def readFactor (dialect : Dialect) (read : Reader) (tokens : Tokens) : Parse (Term × Tokens) := do
  match ← accept (isPrefixOperator dialect) tokens with
  | none => read .power tokens
  | some (operator, after) =>
    let symbol := symbolOf operator.lexeme
    let isSign := symbol = Text.ofString "-" ∨ symbol = Text.ofString "+"
    if ¬ isSign ∧ isOpenParenthesis after.head.lexeme then read .power tokens
    else if ¬ isSign ∧ endsOperand after.head.lexeme then read .atom tokens
    else
      let (operand, tokens) ← read .factor after
      pure (.unary symbol operand, tokens)

/-- Reads a point with a member name, or a bracketed index, and goes on. -/
def readSteps (dialect : Dialect) (read : Reader) (object : Term) (tokens : Tokens) :
    Parse (Term × Tokens) := do
  match ← accept (isOperator ".") tokens with
  | some (point, tokens) =>
    if dialect.options.memberAccess then
      match ← accept (fun lexeme => (memberName? lexeme).isSome) tokens with
      | some (token, tokens) =>
        read (.steps (.member object ((memberName? token.lexeme).getD []))) tokens
      | none => fail (.expected (Text.ofString "NAME")) tokens.head
    else fail .memberDisabled point
  | none =>
    match ← accept isOpenBracket tokens with
    | some (bracket, tokens) =>
      if dialect.enables Term.indexSymbol then
        let (index, tokens) ← read .expression tokens
        let tokens ← expect (Text.ofString "]") isCloseBracket tokens
        read (.steps (.binary Term.indexSymbol object index)) tokens
      else fail .arrayDisabled bracket
    | none => pure (object, tokens)

/-- Reads a name, a literal, or an expression in brackets. -/
def readAtom (dialect : Dialect) (read : Reader) (tokens : Tokens) : Parse (Term × Tokens) :=
  match tokens with
  | .cons token rest =>
    match token.lexeme with
    | .name name => do return (.name name, ← settle rest)
    | .operator symbol =>
      if dialect.isPrefixOperator symbol then do return (.name symbol, ← settle rest)
      else fail (.unexpected token.lexeme) token
    | .number value => do return (.literal value, ← settle rest)
    | .text content => do return (.literal (.text content), ← settle rest)
    | .openParenthesis => do
      let (term, tokens) ← read .expression (← settle rest)
      let tokens ← expect (Text.ofString ")") isCloseParenthesis tokens
      pure (term, tokens)
    | .openBracket => do
      let tokens ← settle rest
      match ← accept isCloseBracket tokens with
      | some (_, tokens) => pure (.array [], tokens)
      | none => read (.items .array []) tokens
    | _ => fail (.unexpected token.lexeme) token
  | tokens => fail (.unexpected tokens.head.lexeme) tokens.head

/-- One step towards a goal; `read` takes the further goals. -/
def step (dialect : Dialect) (read : Reader) : Reader
  | .expression, tokens => do
    let (first, tokens) ← read .assignment tokens
    match ← accept isSemicolon tokens with
    | none => pure (first, tokens)
    | some (_, tokens) =>
      if endsStatement tokens.head.lexeme then pure (.statement first, tokens)
      else
        let (rest, tokens) ← read .expression tokens
        pure (.sequence first rest, tokens)
  | .assignment, tokens => do
    let (target, tokens) ← read .conditional tokens
    match ← accept (isOperator "=") tokens with
    | none => pure (target, tokens)
    | some (sign, tokens) => assignTo dialect read target sign tokens
  | .conditional, tokens => do
    let (condition, tokens) ← read (.chain .disjunction) tokens
    match ← accept (isOperator "?") tokens with
    | none => pure (condition, tokens)
    | some (_, tokens) =>
      let (yes, tokens) ← read .conditional tokens
      let tokens ← expect (Text.ofString ":") (isOperator ":") tokens
      let (no, tokens) ← read .conditional tokens
      pure (.conditional condition yes no, tokens)
  | .chain level, tokens => do
    let (left, tokens) ← read level.operand tokens
    read (.chainRest level left) tokens
  | .chainRest level left, tokens => do
    match ← accept (fun lexeme => level.symbols.any (lexeme.isOperator ·)) tokens with
    | none => pure (left, tokens)
    | some (operator, tokens) =>
      let (right, tokens) ← read level.operand tokens
      read (.chainRest level (level.build (symbolOf operator.lexeme) left right)) tokens
  | .factor, tokens => readFactor dialect read tokens
  | .power, tokens => do
    let (base, tokens) ← read .suffixed tokens
    match ← accept (isOperator "^") tokens with
    | none => pure (base, tokens)
    | some (_, tokens) =>
      let (exponent, tokens) ← read .factor tokens
      pure (.binary (Text.ofString "^") base exponent, tokens)
  | .suffixed, tokens => do
    let (operand, tokens) ← read .application tokens
    read (.factorials operand) tokens
  | .factorials operand, tokens => do
    match ← accept (isOperator "!") tokens with
    | none => pure (operand, tokens)
    | some (_, tokens) => read (.factorials (.unary (Text.ofString "!") operand)) tokens
  | .application, tokens => do
    match ← accept (isPrefixOperator dialect) tokens with
    | some (operator, tokens) =>
      let (operand, tokens) ← read .atom tokens
      pure (.unary (symbolOf operator.lexeme) operand, tokens)
    | none =>
      let (callee, tokens) ← read .access tokens
      read (.calls callee) tokens
  | .calls callee, tokens => do
    match ← accept isOpenParenthesis tokens with
    | none => pure (callee, tokens)
    | some (_, tokens) =>
      match ← accept isCloseParenthesis tokens with
      | some (_, tokens) => read (.calls (.call callee [])) tokens
      | none =>
        let (call, tokens) ← read (.items (.call callee) []) tokens
        read (.calls call) tokens
  | .access, tokens => do
    let (object, tokens) ← read .atom tokens
    read (.steps object) tokens
  | .steps object, tokens => readSteps dialect read object tokens
  | .atom, tokens => readAtom dialect read tokens
  | .items shape done, tokens => do
    let (item, tokens) ← read .expression tokens
    match ← accept isComma tokens with
    | some (_, tokens) => read (.items shape (done ++ [item])) tokens
    | none =>
      let what := match shape.closer.value with
        | .text sign => sign
        | _ => []
      let tokens ← expect what (isCloser shape) tokens
      pure (shape.build (done ++ [item]), tokens)

/-- Reads towards a goal with a bound on the depth of the recursion. -/
def read (dialect : Dialect) : Nat → Reader
  | 0 => fun _ _ => none
  | depth + 1 => step dialect (read dialect depth)

/-- Deep enough for every goal that this many tokens can lead to. -/
def depthFor (tokens : Tokens) : Nat := 32 * (tokens.size + 2)

/-- Reads one expression that reaches to the end of the text. -/
def readAll (dialect : Dialect) (tokens : Tokens) : Parse Term := do
  let tokens ← settle tokens
  let (term, tokens) ← read dialect (depthFor tokens) .expression tokens
  match tokens with
  | .finish _ => pure term
  | _ => fail (.expected (Text.ofString "EOF")) tokens.head

end Grammar

/-- The term that a source text denotes in a dialect. -/
def parse (dialect : Dialect) (source : Text) : Except ParseFailure Term :=
  let tokens := Tokens.ofText dialect source
  match (Grammar.readAll dialect tokens).run with
  | some result => result.mapError (·.locate source)
  | none => .error (ParseFault.locate source { cause := .unexpected .endOfText, position := 0 })

end Formula
