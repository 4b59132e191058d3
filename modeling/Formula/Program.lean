import Formula.Value

/-!
Postfix programs: what each instruction takes from the stack of operands and puts there.
-/

namespace Formula

inductive Instruction where
  | literal (value : Value)
  | unary (symbol : Text)
  | binary (symbol : Text)
  | ternary (symbol : Text)
  /-- The value of a name. -/
  | name (name : Text)
  /-- A name that something is bound to. -/
  | target (name : Text)
  | call (count : Int)
  | define (count : Int)
  /-- A program that runs only when its value is asked for. -/
  | nested (program : List Instruction)
  /-- Such a program that did not come from source text. -/
  | suspended (program : List Instruction)
  | member (name : Text)
  /-- Drops the value of a statement. -/
  | discard
  | array (count : Int)
  deriving Inhabited

abbrev Program := List Instruction

namespace Instruction

/-- How many operands an instruction takes. -/
def taken : Instruction → Nat
  | .literal _ | .name _ | .target _ | .nested _ | .suspended _ => 0
  | .unary _ | .member _ | .discard => 1
  | .binary _ => 2
  | .ternary _ => 3
  | .call count => count.toNat + 1
  | .define count => count.toNat + 2
  | .array count => count.toNat

/-- How many operands an instruction leaves. -/
def left : Instruction → Nat
  | .discard => 0
  | _ => 1

end Instruction

end Formula
