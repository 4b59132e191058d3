import Formula.Program

/-!
Substitution: another program in place of a name.
-/

namespace Formula.Instruction

mutual

/-- The instructions that take the place of one. -/
def substitute (sought : Text) (replacement : Program) : Instruction → Program
  | .name word => if word = sought then replacement else [.name word]
  | .nested program => [.nested (substituteAll sought replacement program)]
  | instruction => [instruction]

/-- The program with `replacement` for every reading of a name, in nested programs too. -/
def substituteAll (sought : Text) (replacement : Program) : List Instruction → Program
  | [] => []
  | instruction :: rest =>
    substitute sought replacement instruction ++ substituteAll sought replacement rest

end

end Formula.Instruction

namespace Formula.Program

/-- The program with another one in place of each reading of a name. -/
def substitute (program : Program) (sought : Text) (replacement : Program) : Program :=
  Instruction.substituteAll sought replacement program

end Formula.Program
