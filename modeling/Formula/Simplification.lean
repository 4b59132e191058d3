import Formula.Machine

/-!
Simplification: every operator whose operands are all known is replaced by its value.
-/

namespace Formula

namespace Simplification

section

variable (perform : Machine.Perform) (dialect : Nat) (values : Entries)

/-- Calls the entry of a table of operators. -/
def applyOperator (table : Dialect → Table) (symbol : Text) (operands : List Value) :
    Eval Value := do
  match (table ((← get).dialect dialect)).get? symbol with
  | some function => perform (.call function operands)
  | none => Eval.refuse .missingKey

/-- The value that is known for a name. Callables are never known, so that they stay subject to the
test of trust. -/
def known? (heap : Heap) (name : Text) : Option Value :=
  (heap.lookup (.text name) values).filter (!·.isCallable)

/-- The literals that wait for their operator, the latest first, as they stand in the program. -/
def flushed (pending : List Value) : Program := pending.reverse.map .literal

mutual

/-- What takes the place of an instruction: literals that may still be folded, or else the program
before which nothing can be folded any more. -/
def simplifyStep (pending : List Value) (instruction : Instruction) :
    Eval (Program × List Value) := do
  match instruction, pending with
  | .literal value, pending => return ([], value :: pending)
  | .name name, pending =>
    match known? values (← get).heap name with
    | some value => return ([], value :: pending)
    | none => return (flushed pending ++ [.name name], [])
  | .unary symbol, operand :: pending =>
    let value ← applyOperator perform dialect Dialect.unary symbol [operand]
    return ([], value :: pending)
  | .binary symbol, right :: left :: pending =>
    let value ← applyOperator perform dialect Dialect.binary symbol [left, right]
    return ([], value :: pending)
  | .ternary symbol, third :: second :: first :: pending =>
    if symbol = Text.ofString "?" then
      let met := (← get).heap.truth first
      return ([], (if met then second else third) :: pending)
    else
      let value ← applyOperator perform dialect Dialect.ternary symbol [first, second, third]
      return ([], value :: pending)
  | .nested program, pending =>
    let inner ← simplifyFrom [] program
    return (flushed pending ++ [.nested inner], [])
  | .member name, object :: pending =>
    if Text.isReserved name then throw (.security .reservedMember)
    match (← get).heap.member object name with
    | .method => return (flushed (object :: pending) ++ [.member name], [])
    | .value value =>
      if value.isCallable then return (flushed (object :: pending) ++ [.member name], [])
      else return ([], value :: pending)
  | instruction, pending => return (flushed pending ++ [instruction], [])

/-- The rest of a program after some literals. -/
def simplifyFrom (pending : List Value) (program : List Instruction) : Eval Program := do
  match program with
  | [] => return flushed pending
  | instruction :: rest =>
    let (done, pending) ← simplifyStep pending instruction
    let others ← simplifyFrom pending rest
    return done ++ others

end

end

end Simplification

/-- The program with known values for names and with operators on literals worked out. -/
def Program.simplify (perform : Machine.Perform) (dialect : Nat) (values : Entries)
    (program : Program) : Eval Program :=
  Simplification.simplifyFrom perform dialect values [] program

end Formula
