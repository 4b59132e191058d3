import Formula.Program

/-!
The names of a program, each once, in order of first appearance.
-/

namespace Formula

/-- The list with a name at its end, unless it holds the name already. -/
def addName (names : List Text) (name : Text) : List Text :=
  if name ∈ names then names else names ++ [name]

def addPending (names : List Text) : Option Text → List Text
  | some path => addName names path
  | none => names

namespace Instruction

mutual

def collectNames (names : List Text) : Instruction → List Text
  | .name word | .target word => addName names word
  | .nested program => collectAllNames names program
  | _ => names

/-- The names that a program reads or binds, after those found before. -/
def collectAllNames (names : List Text) : List Instruction → List Text
  | [] => names
  | instruction :: rest => collectAllNames (collectNames names instruction) rest

end

/-- The names found, and the path that the next instruction may still extend. -/
abbrev Paths := List Text × Option Text

mutual

/-- A member step extends the path before it; a nested program is searched and leaves the path open;
any other instruction ends the path. -/
def collectPath : Paths → Instruction → Paths
  | (names, pending), .name word | (names, pending), .target word =>
    (addPending names pending, some word)
  | (names, some path), .member word => (names, some (path ++ '.'.toNat :: word))
  | (names, pending), .nested program => (collectAllPaths (names, none) program, pending)
  | (names, pending), _ => (addPending names pending, none)

/-- The dotted paths of a program, after those found before. -/
def collectAllPaths : Paths → List Instruction → List Text
  | (names, pending), [] => addPending names pending
  | paths, instruction :: rest => collectAllPaths (collectPath paths instruction) rest

end

end Instruction

namespace Program

/-- The names that a program reads or binds. -/
def names (program : Program) : List Text := Instruction.collectAllNames [] program

/-- The names of a program, each with the member steps that follow it. -/
def paths (program : Program) : List Text := Instruction.collectAllPaths ([], none) program

end Program

end Formula
