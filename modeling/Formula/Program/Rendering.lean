import Formula.Failure
import Formula.Value.Written

/-!
Source text for programs, with parentheses around every operator.
-/

namespace Formula

namespace Rendering

/-- The texts of the operands so far, the latest first. -/
abbrev Parts := List Text

def sign (symbol : Char) : Text := [symbol.toNat]

def enclosed (opener : Char) (body : Text) (closer : Char) : Text :=
  opener.toNat :: body ++ [closer.toNat]

def listed (items : List Text) : Text := Text.join (Text.ofString ", ") items

/-- How many texts an instruction takes that asks for some of those that are there. One that asks for
too many gets as many as are missing. -/
def available (count : Int) (present : Nat) : Nat :=
  if count ≤ present then count.toNat else min present (count.toNat - present)

/-- The texts that an instruction takes, in order, and the others. -/
def takeParts (count : Int) (parts : Parts) : List Text × Parts :=
  let size := available count parts.length
  ((parts.take size).reverse, parts.drop size)

def pop : Parts → Except Failure (Text × Parts)
  | [] => .error (.operand .outOfRange)
  | part :: rest => .ok (part, rest)

/-- A literal; a negative number stands in parentheses. -/
def literal (heap : Heap) (value : Value) : Text :=
  let negative := match value with
    | .int number => decide (number < 0)
    | .float number => number < 0.0
    | _ => false
  if negative then enclosed '(' (heap.literal value) ')' else heap.literal value

/-- The text of an operator before or after its operand. -/
def unary (symbol operand : Text) : Text :=
  if symbol = sign '-' ∨ symbol = sign '+' then enclosed '(' (symbol ++ operand) ')'
  else if symbol = sign '!' then enclosed '(' (operand ++ sign '!') ')'
  else enclosed '(' (symbol ++ sign ' ' ++ operand) ')'

def binary (symbol left right : Text) : Text :=
  if symbol = sign '[' then left ++ enclosed '[' right ']'
  else enclosed '(' (left ++ sign ' ' ++ symbol ++ sign ' ' ++ right) ')'

def ternary (symbol first second third : Text) : Except Failure Text :=
  if symbol = sign '?' then
    .ok (enclosed '(' (first ++ Text.ofString " ? " ++ second ++ Text.ofString " : " ++ third) ')')
  else if symbol = sign '=' then
    .ok (enclosed '(' (first ++ sign '.' ++ second ++ Text.ofString " = " ++ third) ')')
  else .error (.evaluation .invalidProgram)

/-- The whole text: the parts that are left, as statements. -/
def finish (parts : Parts) : Text := Text.join (sign ';') parts.reverse

mutual

/-- What an instruction does to the texts so far. -/
def instruction (heap : Heap) : Instruction → Parts → Except Failure Parts
  | .literal value, parts => .ok (literal heap value :: parts)
  | .name word, parts | .target word, parts => .ok (word :: parts)
  | .unary symbol, parts => do
    let (operand, parts) ← pop parts
    return unary symbol operand :: parts
  | .binary symbol, parts => do
    let (right, parts) ← pop parts
    let (left, parts) ← pop parts
    return binary symbol left right :: parts
  | .ternary symbol, parts => do
    let (third, parts) ← pop parts
    let (second, parts) ← pop parts
    let (first, parts) ← pop parts
    let text ← ternary symbol first second third
    return text :: parts
  | .call count, parts => do
    let (arguments, parts) := takeParts count parts
    let (callee, parts) ← pop parts
    return (callee ++ enclosed '(' (listed arguments) ')') :: parts
  | .define count, parts => do
    let (body, parts) ← pop parts
    let (parameters, parts) := takeParts count parts
    let (name, parts) ← pop parts
    let head := name ++ enclosed '(' (listed parameters) ')'
    return enclosed '(' (head ++ Text.ofString " = " ++ body) ')' :: parts
  | .nested program, parts => do
    let inner ← instructions heap program []
    return enclosed '(' (finish inner) ')' :: parts
  | .suspended _, _ => .error (.evaluation .invalidProgram)
  | .member name, parts => do
    let (object, parts) ← pop parts
    return (object ++ '.'.toNat :: name) :: parts
  | .discard, parts => .ok parts
  | .array count, parts =>
    let (items, parts) := takeParts count parts
    .ok (enclosed '[' (listed items) ']' :: parts)

def instructions (heap : Heap) : List Instruction → Parts → Except Failure Parts
  | [], parts => .ok parts
  | first :: rest, parts => do
    let parts ← instruction heap first parts
    instructions heap rest parts

end

end Rendering

/-- Source text for a program. -/
def Program.render (heap : Heap) (program : Program) : Except Failure Text :=
  (Rendering.instructions heap program []).map Rendering.finish

end Formula
