import Formula.Dialect
import Formula.Failure
import Formula.Number.Reading
import Formula.Text.Letter

/-!
Scanning: which token starts at a place of the text. Every scanner sees the first code point and the
rest, and says how many code points of the rest belong to the token, so a token is never empty.
-/

namespace Formula

namespace Scan

/-- A token's lexeme with the number of code points after its first. -/
abbrev Found := Lexeme × Nat

/-- The value of a digit in a base up to sixteen. -/
def radixDigit? (base : Nat) (point : CodePoint) : Option Nat :=
  let value? :=
    if Text.isDigit point then some (point - '0'.toNat)
    else if 'a'.toNat ≤ point ∧ point ≤ 'f'.toNat then some (point - 'a'.toNat + 10)
    else if 'A'.toNat ≤ point ∧ point ≤ 'F'.toNat then some (point - 'A'.toNat + 10)
    else none
  value?.filter (· < base)

/-- The base that a letter after a leading zero announces. -/
def radix? (marker : CodePoint) : Option Nat :=
  if marker = 'x'.toNat then some 16 else if marker = 'b'.toNat then some 2 else none

/-- An integer in base sixteen or two: `0x` or `0b` and at least one digit. -/
def radixInteger? (first : CodePoint) (rest : Text) : Option Found :=
  if first = '0'.toNat then
    match rest with
    | [] => none
    | marker :: body => do
      let base ← radix? marker
      let digits := body.takeWhile fun point => (radixDigit? base point).isSome
      if digits.isEmpty then none
      else
        let value := Reading.digitsValue base (digits.filterMap (radixDigit? base))
        some (.number (.int value), digits.length + 1)
  else none

/-- A decimal number: an integer if it consists of digits alone, else a double. -/
def number? (first : CodePoint) (rest : Text) : Option Found := do
  let text := first :: rest
  let (number, after) ← Reading.decimal? text
  let size := text.length - after.length
  let digits := text.takeWhile Text.isDigit
  let value : Value :=
    if digits.length = size then .int number.digits else .float (number.toDouble false)
  some (.number value, size - 1)

/-- Operators of a single sign. -/
def singleSigns : Text := Text.ofString "+-*/%^?:."

/-- Signs that an equals sign may follow. -/
def openSigns : Text := Text.ofString "><=!"

/-- Signs that also stand for multiplication. -/
def multiplicationSigns : Text := Text.ofString "∙•"

/-- The operator that the signs at this place spell. -/
def signs? (first : CodePoint) (rest : Text) : Option Text :=
  let following := rest.head?
  if first ∈ singleSigns then some [first]
  else if first ∈ multiplicationSigns then some (Text.ofString "*")
  else if first ∈ openSigns then
    some (if following = some '='.toNat then [first, '='.toNat] else [first])
  else if first = '|'.toNat ∧ following = some '|'.toNat then some (Text.ofString "||")
  else none

def operator? (dialect : Dialect) (first : CodePoint) (rest : Text) : Option Found := do
  let symbol ← signs? first rest
  if dialect.enables symbol then some (.operator symbol, symbol.length - 1) else none

/-- Escapes of a single letter. -/
def simpleEscape? (letter : CodePoint) : Option CodePoint :=
  if letter = '\''.toNat ∨ letter = '"'.toNat ∨ letter = '\\'.toNat ∨ letter = '/'.toNat then
    some letter
  else if letter = 'b'.toNat then some 8
  else if letter = 'f'.toNat then some 12
  else if letter = 'n'.toNat then some 10
  else if letter = 'r'.toNat then some 13
  else if letter = 't'.toNat then some 9
  else none

/-- The code point of four hexadecimal digits. -/
def fourDigits? (digits : Text) : Option CodePoint :=
  let values := digits.filterMap (radixDigit? 16)
  if digits.length = 4 ∧ values.length = 4 then some (Reading.digitsValue 16 values) else none

/-- The text between quotes with its escapes read; a bad escape is reported with its offset. -/
def unescape (offset : Nat) : Text → Except (ParseCause × Nat) Text
  | [] => .ok []
  | point :: rest =>
    if point ≠ '\\'.toNat then (unescape (offset + 1) rest).map (point :: ·)
    else
      match rest with
      | [] => .error (.unknownEscape [], offset)
      | letter :: more =>
        match simpleEscape? letter with
        | some value => (unescape (offset + 2) more).map (value :: ·)
        | none =>
          if letter ≠ 'u'.toNat then .error (.unknownEscape [letter], offset)
          else
            match more with
            | a :: b :: c :: d :: after =>
              match fourDigits? [a, b, c, d] with
              | some value => (unescape (offset + 6) after).map (value :: ·)
              | none => .error (.badCodePoint [a, b, c, d], offset)
            | short => .error (.badCodePoint short, offset)

/-- How many code points stand before the closing quote: the first quote that does not follow a
backslash. -/
def closingQuote? (quote previous : CodePoint) : Text → Option Nat
  | [] => none
  | point :: rest =>
    if point = quote ∧ previous ≠ '\\'.toNat then some 0
    else (closingQuote? quote point rest).map (· + 1)

/-- A text in single or double quotes. -/
def text? (first : CodePoint) (rest : Text) : Option (Except (ParseCause × Nat) Found) :=
  if first = '\''.toNat ∨ first = '"'.toNat then
    (closingQuote? first first rest).map fun size =>
      (unescape 1 (rest.take size)).map fun content => (.text content, size + 1)
  else none

/-- A sign that is a token by itself. -/
def punctuation? (dialect : Dialect) (first : CodePoint) : Option Found :=
  if first = '('.toNat then some (.openParenthesis, 0)
  else if first = ')'.toNat then some (.closeParenthesis, 0)
  else if first = '['.toNat ∧ dialect.enables (Text.ofString "[") then some (.openBracket, 0)
  else if first = ']'.toNat ∧ dialect.enables (Text.ofString "[") then some (.closeBracket, 0)
  else if first = ','.toNat then some (.comma, 0)
  else if first = ';'.toNat then some (.semicolon, 0)
  else none

def isNamePart (point : CodePoint) : Bool :=
  Text.isLetter point || point == '_'.toNat || Text.isDigit point

/-- The word at this place: a letter and all letters, digits and underscores after it. -/
def word? (first : CodePoint) (rest : Text) : Option Text :=
  if Text.isLetter first then some (first :: rest.takeWhile isNamePart) else none

/-- The dotted word at this place: a word that may hold points. -/
def dottedWord? (first : CodePoint) (rest : Text) : Option Text :=
  if Text.isLetter first then
    some (first :: rest.takeWhile fun point => isNamePart point || point == '.'.toNat)
  else none

/-- A word that is an operator of the dialect. -/
def wordOperator? (dialect : Dialect) (first : CodePoint) (rest : Text) : Option Found := do
  let word ← word? first rest
  if dialect.isOperatorWord word && dialect.enables word then
    some (.operator word, word.length - 1)
  else none

/-- A dotted word that is a constant of the dialect. -/
def constant? (dialect : Dialect) (first : CodePoint) (rest : Text) : Option Found := do
  let word ← dottedWord? first rest
  let value ← dialect.constants.get? word
  some (.number value, word.length - 1)

/-- A name: a letter or an underscore, or a dollar sign and a letter, and all letters, digits and
underscores after it. -/
def name? (first : CodePoint) (rest : Text) : Option Found :=
  let tail := rest.takeWhile isNamePart
  let starts := Text.isLetter first || first == '_'.toNat ||
    (first == '$'.toNat && rest.head?.any Text.isLetter)
  if starts then some (.name (first :: tail), tail.length) else none

/-- The token that starts with `first`. A failure carries its offset from there. -/
def token (dialect : Dialect) (first : CodePoint) (rest : Text) : Except (ParseCause × Nat) Found :=
  match radixInteger? first rest <|> number? first rest <|> operator? dialect first rest with
  | some found => .ok found
  | none =>
    match text? first rest with
    | some result => result
    | none =>
      match punctuation? dialect first <|> wordOperator? dialect first rest <|>
          constant? dialect first rest <|> name? first rest with
      | some found => .ok found
      | none => .error (.unknownCharacter first, 0)

end Scan

end Formula
