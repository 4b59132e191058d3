import Formula.Value.Written

/-!
Listings of programs: one word for each instruction, in order of evaluation.
-/

namespace Formula

namespace Instruction

mutual

/-- The word of an instruction in a listing. -/
def listed (heap : Heap) : Instruction → Text
  | .literal value => heap.plain value
  | .unary symbol | .binary symbol | .ternary symbol => symbol
  | .name word | .target word => word
  | .call count => Text.ofString "CALL " ++ Text.ofInt count
  | .define count => Text.ofString "DEF " ++ Text.ofInt count
  | .nested program => Text.ofString "(" ++ listedAll heap program ++ Text.ofString ")"
  | .suspended _ => opaqueText "function"
  | .member word => '.'.toNat :: word
  | .discard => Text.ofString ";"
  | .array count => Text.ofString "ARRAY " ++ Text.ofInt count

/-- The words of a program with blanks between. -/
def listedAll (heap : Heap) : List Instruction → Text
  | [] => []
  | [instruction] => instruction.listed heap
  | instruction :: next :: rest =>
    instruction.listed heap ++ ' '.toNat :: listedAll heap (next :: rest)

end

mutual

/-- Whether the text of an instruction would show something that has no text. -/
def hides (heap : Heap) : Instruction → Bool
  | .literal value => heap.hides value
  | .nested program => hidesAny heap program
  | _ => false

def hidesAny (heap : Heap) : List Instruction → Bool
  | [] => false
  | instruction :: rest => instruction.hides heap || hidesAny heap rest

end

mutual

def isSuspended : Instruction → Bool
  | .suspended _ => true
  | .nested program => anySuspended program
  | _ => false

def anySuspended : List Instruction → Bool
  | [] => false
  | instruction :: rest => instruction.isSuspended || anySuspended rest

end

end Instruction

namespace Program

def listing (heap : Heap) (program : Program) : Text := Instruction.listedAll heap program

/-- Whether source text for the program would show something that has no text. -/
def hides (heap : Heap) (program : Program) : Bool := Instruction.hidesAny heap program

/-- Whether a listing of the program would show something that has no text. -/
def listingHides (heap : Heap) (program : Program) : Bool :=
  program.hides heap || Instruction.anySuspended program

end Program

end Formula
