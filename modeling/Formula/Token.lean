import Formula.Value

/-!
Tokens: the words of the language, each with the position at which it starts.
-/

namespace Formula

inductive Lexeme where
  | endOfText
  | operator (symbol : Text)
  /-- A numeric literal or a constant. -/
  | number (value : Value)
  | text (content : Text)
  | openParenthesis
  | closeParenthesis
  | openBracket
  | closeBracket
  | comma
  | name (name : Text)
  | semicolon
  deriving Inhabited

namespace Lexeme

/-- The name of the kind of token. -/
def kind : Lexeme → Text
  | .endOfText => Text.ofString "EOF"
  | .operator _ => Text.ofString "OP"
  | .number _ => Text.ofString "NUMBER"
  | .text _ => Text.ofString "STRING"
  | .openParenthesis | .closeParenthesis => Text.ofString "PAREN"
  | .openBracket | .closeBracket => Text.ofString "BRACKET"
  | .comma => Text.ofString "COMMA"
  | .name _ => Text.ofString "NAME"
  | .semicolon => Text.ofString "SEMICOLON"

/-- What the token stands for: a text, save for numbers and constants. -/
def value : Lexeme → Value
  | .endOfText => .text (Text.ofString "EOF")
  | .operator symbol => .text symbol
  | .number value => value
  | .text content => .text content
  | .openParenthesis => .text (Text.ofString "(")
  | .closeParenthesis => .text (Text.ofString ")")
  | .openBracket => .text (Text.ofString "[")
  | .closeBracket => .text (Text.ofString "]")
  | .comma => .text (Text.ofString ",")
  | .name word => .text word
  | .semicolon => .text (Text.ofString ";")

def isOperator (lexeme : Lexeme) (symbol : Text) : Bool :=
  match lexeme with
  | .operator found => found = symbol
  | _ => false

end Lexeme

structure Token where
  lexeme : Lexeme
  position : Nat
  deriving Inhabited

end Formula
