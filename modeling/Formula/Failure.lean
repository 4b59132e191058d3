import Formula.Token

/-!
The ways in which an expression fails, by cause.
-/

namespace Formula

/-- Why a text is not an expression. -/
inductive ParseCause where
  | unknownCharacter (point : CodePoint)
  /-- An escape that starts with no known letter, or with none. -/
  | unknownEscape (letter : Text)
  /-- A numeric escape without four digits. -/
  | badCodePoint (digits : Text)
  | expected (what : Text)
  | unexpected (lexeme : Lexeme)
  | definitionDisabled
  | badSignature
  | badAssignmentTarget
  | memberDisabled
  | arrayDisabled
  deriving Inhabited

/-- A failure to parse, with its place in the text. -/
structure ParseFault where
  cause : ParseCause
  position : Nat
  /-- The token at fault; none if no token could be read. -/
  found : Option Lexeme := none
  deriving Inhabited

/-- The one-based line and column of a position. -/
def coordinates (source : Text) (position : Nat) : Nat × Nat :=
  let before := source.take position
  let onLine := before.reverse.takeWhile (· ≠ '\n'.toNat)
  (before.count '\n'.toNat + 1, onLine.length + 1)

/-- A failure to parse, with its line and column. -/
structure ParseFailure extends ParseFault where
  line : Nat
  column : Nat
  deriving Inhabited

def ParseFault.locate (source : Text) (fault : ParseFault) : ParseFailure :=
  { fault with
    line := (coordinates source fault.position).1
    column := (coordinates source fault.position).2 }

/-- Why a program cannot be evaluated. -/
inductive EvaluationCause where
  | undefinedVariable (name : Text)
  | unknownOperator (symbol : Text)
  | invalidProgram
  | leftoverOperands
  | notFunction (value : Value)
  | memberOf (name : Value) (target : Value)
  | argumentCount (expected found : Nat)
  | mixedArguments
  | signatureMismatch (missing extra : List Text)
  | unknownNode (operation : Text)
  deriving Inhabited

/-- Why a value is not to be trusted. -/
inductive SecurityCause where
  | reservedName
  | reservedMember
  | reservedAssignment
  | variable (name : Text)
  | call
  | argument
  | member
  | element
  deriving Inhabited

/-- What has no counterpart among array operations. -/
inductive UnsupportedCause where
  | functionOperand (name place : Text)
  | literal (value : Value)
  | freeName (name : Text)
  | unaryOperator (symbol : Text)
  | binaryOperator (symbol : Text)
  | ternaryOperator (symbol : Text)
  | computedCall
  | instruction (kind : Text)
  | valueCount
  deriving Inhabited

/-- Why an operation refuses its operands. -/
inductive OperandFault where
  | wrongType
  | badValue
  | divisionByZero
  | overflow
  | missingKey
  | outOfRange
  deriving DecidableEq, Repr, Inhabited

/-- A traversal that is given something else than a function or a sequence. -/
inductive TraversalFault where
  | notFunction (traversal : String)
  | notSequence (traversal : String)
  | sumOfOther
  | searchInOther
  deriving Inhabited

inductive Failure where
  | parse (failure : ParseFailure)
  | evaluation (cause : EvaluationCause)
  | security (cause : SecurityCause)
  | unsupported (cause : UnsupportedCause)
  | operand (fault : OperandFault)
  | traversal (fault : TraversalFault)
  /-- An instruction of no known kind. -/
  | unknownInstruction (kind : Text)
  /-- The array operations refuse the program. -/
  | arrays
  deriving Inhabited

namespace ParseFault

/-- Whether the fault lies in the characters rather than in the order of the tokens. -/
def isLexical (failure : ParseFault) : Bool :=
  match failure.cause with
  | .unknownCharacter _ | .unknownEscape _ | .badCodePoint _ => true
  | _ => false

/-- What should have stood at the place of the failure. -/
def expected (failure : ParseFault) : List Text :=
  match failure.cause with
  | .expected what => [what]
  | _ => []

end ParseFault

end Formula
