import Formula.Failure
import Formula.Value.Written

/-!
The wording of failures.
-/

namespace Formula

/-- A token as messages show it. -/
def Lexeme.shown (heap : Heap) (lexeme : Lexeme) : Text :=
  lexeme.kind ++ Text.ofString ": " ++ heap.plain lexeme.value

/-- A token as a failure to parse shows what it found. -/
def Lexeme.found (heap : Heap) : Lexeme → Text
  | .endOfText => Text.ofString "EOF"
  | lexeme =>
    lexeme.kind ++ Text.ofString "(" ++ heap.plain lexeme.value ++ Text.ofString ")"

def ParseCause.message (heap : Heap) : ParseCause → Text
  | .unknownCharacter point =>
    Text.ofString "Unknown character \"" ++ [point] ++ Text.ofString "\""
  | .unknownEscape letter =>
    Text.ofString "Illegal escape sequence: \"\\" ++ letter ++ Text.ofString "\""
  | .badCodePoint digits => Text.ofString "Illegal escape sequence: \\u" ++ digits
  | .expected what => Text.ofString "Expected " ++ what
  | .unexpected lexeme => Text.ofString "Unexpected " ++ lexeme.shown heap
  | .definitionDisabled => Text.ofString "function definition is not permitted"
  | .badSignature => Text.ofString "function definition requires a name and parameter names"
  | .badAssignmentTarget => Text.ofString "expected variable for assignment"
  | .memberDisabled => Text.ofString "unexpected \".\", member access is not permitted"
  | .arrayDisabled => Text.ofString "unexpected \"[]\", arrays are disabled"

/-- The message of a failure to parse: its place, its cause, what was expected and what was found. -/
def ParseFailure.message (heap : Heap) (failure : ParseFailure) : Text :=
  let expected :=
    if failure.expected.isEmpty then []
    else Text.ofString "; expected " ++ Text.join (Text.ofString ", ") failure.expected
  let found := match failure.found with
    | some lexeme => Text.ofString "; found " ++ lexeme.found heap
    | none => []
  Text.ofString "parse error [" ++ Text.ofNat failure.line ++ Text.ofString ":" ++
    Text.ofNat failure.column ++ Text.ofString "]: " ++ failure.cause.message heap ++
    expected ++ found

/-- A list of names as messages show it. -/
def shownNames (names : List Text) : Text :=
  Text.ofString "[" ++ Text.join (Text.ofString ", ") (names.map Text.shown) ++ Text.ofString "]"

def EvaluationCause.message (heap : Heap) : EvaluationCause → Text
  | .undefinedVariable name => Text.ofString "undefined variable: " ++ name
  | .unknownOperator symbol => Text.ofString "unknown operator: " ++ symbol
  | .invalidProgram => Text.ofString "invalid Expression"
  | .leftoverOperands => Text.ofString "invalid Expression (parity)"
  | .notFunction value => heap.shown value ++ Text.ofString " is not a function"
  | .memberOf name target =>
    Text.ofString "cannot assign member " ++ heap.shown name ++ Text.ofString " of " ++
      target.typeName
  | .argumentCount expected found =>
    Text.ofString "Expected " ++ Text.ofNat expected ++ Text.ofString " arguments, got " ++
      Text.ofNat found
  | .mixedArguments => Text.ofString "Use either positional or keyword arguments, not both"
  | .signatureMismatch missing extra =>
    Text.ofString "Keyword arguments do not match signature (missing=" ++ shownNames missing ++
      Text.ofString ", extra=" ++ shownNames extra ++ Text.ofString ")"
  | .unknownNode operation => Text.ofString "Unknown IR op " ++ Text.shown operation

def SecurityCause.message : SecurityCause → Text
  | .reservedName => Text.ofString "prototype access detected"
  | .reservedMember => Text.ofString "prototype access detected in MEMBER"
  | .reservedAssignment => Text.ofString "prototype access detected in member assignment"
  | .variable name => Text.ofString "Variable references an unallowed function: " ++ name
  | .call => Text.ofString "Is not an allowed function."
  | .argument => Text.ofString "Is not an allowed function in arguments."
  | .member => Text.ofString "Is not an allowed function in MEMBER."
  | .element => Text.ofString "Is not an allowed function in array index."

/-- The feature that has no counterpart, as the message names it. -/
def UnsupportedCause.feature (heap : Heap) : UnsupportedCause → Text
  | .functionOperand name place =>
    Text.ofString "function-valued operand " ++ Text.shown name ++ Text.ofString " in " ++ place
  | .literal value => Text.ofString "literal " ++ heap.shown value
  | .freeName name => Text.ofString "free name " ++ Text.shown name
  | .unaryOperator symbol => Text.ofString "unary operator " ++ Text.shown symbol
  | .binaryOperator symbol => Text.ofString "binary operator " ++ Text.shown symbol
  | .ternaryOperator symbol => Text.ofString "ternary operator " ++ Text.shown symbol
  | .computedCall => Text.ofString "calls of computed values"
  | .instruction kind => kind ++ Text.ofString " instructions"
  | .valueCount => Text.ofString "empty or multi-valued programs"

def UnsupportedCause.message (heap : Heap) (cause : UnsupportedCause) : Text :=
  Text.ofString "JAX lowering does not support " ++ cause.feature heap

def TraversalFault.message : TraversalFault → Text
  | .notFunction traversal =>
    Text.ofString ("First argument to " ++ traversal ++ " is not a function")
  | .notSequence traversal =>
    Text.ofString ("Second argument to " ++ traversal ++ " is not an array")
  | .sumOfOther => Text.ofString "Sum argument is not an array"
  | .searchInOther => Text.ofString "Second argument to indexOf is not a string or array"

/-- The message of a failure, if the language words it. -/
def Failure.message? (heap : Heap) : Failure → Option Text
  | .parse failure => some (failure.message heap)
  | .evaluation cause => some (cause.message heap)
  | .security cause => some cause.message
  | .unsupported cause => some (cause.message heap)
  | .traversal fault => some fault.message
  | .unknownInstruction kind =>
    some (Text.ofString "Unknown instruction kind " ++ Text.shown kind)
  | .operand _ | .arrays => none

/-- Whether the message of a failure would show something that has no text. -/
def Failure.hides (heap : Heap) : Failure → Bool
  | .evaluation (.notFunction value) => heap.hides value
  | .evaluation (.memberOf name _) => heap.hides name
  | .unsupported (.literal value) => heap.hides value
  | .parse failure => failure.found.any fun lexeme => heap.hides lexeme.value
  | _ => false

end Formula
