import Mathlib.Data.List.Forall2
import Formula.Program

/-!
The discipline of the stack. What an instruction asks of the topmost operands, and what it leaves, is
decided by the instruction alone, so that a scan of a program tells whether every operand is there when
it is taken.
-/

namespace Formula

/-- What an operand is: a value, a name that something is bound to, or a program that has not run. -/
inductive Shape where
  | value
  | target
  | suspended
  deriving DecidableEq, Repr

/-- What an instruction asks of an operand. Values may still have to be worked out, but nothing takes
the target of a binding for a value. -/
inductive Demand where
  | operand
  | target
  | suspended
  deriving DecidableEq, Repr

def Demand.accepts : Demand → Shape → Bool
  | .operand, shape => shape ≠ .target
  | .target, shape => shape = .target
  | .suspended, shape => shape = .suspended

namespace Instruction

/-- What an instruction takes, the topmost operand first. -/
def demands : Instruction → List Demand
  | .literal _ | .name _ | .target _ | .nested _ | .suspended _ => []
  | .unary _ | .member _ | .discard => [.operand]
  | .binary symbol =>
    if symbol = Text.ofString "=" then [.suspended, .target] else [.operand, .operand]
  | .ternary symbol =>
    if symbol = Text.ofString "=" then [.suspended, .target, .operand]
    else [.operand, .operand, .operand]
  | .call count => List.replicate (count.toNat + 1) .operand
  | .define count => .suspended :: List.replicate (count.toNat + 1) .target
  | .array count => List.replicate count.toNat .operand

/-- What an instruction leaves. -/
def yields : Instruction → List Shape
  | .target _ => [.target]
  | .nested _ | .suspended _ => [.suspended]
  | .discard => []
  | _ => [.value]

theorem length_demands (instruction : Instruction) :
    instruction.demands.length = instruction.taken := by
  cases instruction with
  | binary symbol => simp only [demands, taken]; split <;> rfl
  | ternary symbol => simp only [demands, taken]; split <;> rfl
  | _ => simp [demands, taken]

theorem length_yields (instruction : Instruction) :
    instruction.yields.length = instruction.left := by
  cases instruction <;> rfl

end Instruction

/-- Takes operands as they are demanded. -/
def take : List Demand → List Shape → Option (List Shape)
  | [], stack => some stack
  | demand :: demands, shape :: stack =>
    if demand.accepts shape = true then take demands stack else none
  | _ :: _, [] => none

/-- The stack after a program, as far as its instructions decide it; none if an operand is missing or is
not what is demanded. -/
def scan : Program → List Shape → Option (List Shape)
  | [], stack => some stack
  | instruction :: rest, stack =>
    match take instruction.demands stack with
    | some lower => scan rest (instruction.yields ++ lower)
    | none => none

/-- A program that comes to one operand, which is no target. -/
def settles (program : Program) : Bool :=
  match scan program [] with
  | some [shape] => shape ≠ .target
  | _ => false

mutual

/-- Whether an instruction is one of source text, and what it holds is disciplined. -/
def Instruction.sound : Instruction → Bool
  | .nested program => settles program && soundAll program
  | .suspended _ => false
  | .ternary symbol => symbol = Text.ofString "?" || symbol = Text.ofString "="
  | .call count | .define count | .array count => 0 ≤ count
  | _ => true

def soundAll : List Instruction → Bool
  | [] => true
  | instruction :: rest => instruction.sound && soundAll rest

end

/-- Whether a program, and every program in it, takes only what is there and comes to one operand. -/
def Program.disciplined (program : Program) : Bool := settles program && soundAll program

theorem soundAll_iff {program : Program} :
    soundAll program = true ↔ ∀ instruction ∈ program, instruction.sound = true := by
  induction program with
  | nil => simp [soundAll]
  | cons instruction rest ih => simp [soundAll, ih]

theorem soundAll_append (left right : Program) :
    soundAll (left ++ right) = (soundAll left && soundAll right) := by
  induction left with
  | nil => rfl
  | cons instruction rest ih => simp [soundAll, ih, Bool.and_assoc]

theorem settles_iff {program : Program} :
    settles program = true ↔ ∃ shape, scan program [] = some [shape] ∧ shape ≠ .target := by
  unfold settles
  constructor
  · intro settled
    split at settled
    · rename_i shape found
      exact ⟨shape, found, by simpa using settled⟩
    · cases settled
  · rintro ⟨shape, found, proper⟩
    simp [found, proper]

theorem disciplined_iff {program : Program} :
    program.disciplined = true ↔
      (∃ shape, scan program [] = some [shape] ∧ shape ≠ .target) ∧
        ∀ instruction ∈ program, instruction.sound = true := by
  rw [Program.disciplined, Bool.and_eq_true, settles_iff, soundAll_iff]

/-- The programs in a disciplined one are disciplined. -/
theorem disciplined_part {program part : Program} {instruction : Instruction}
    (disciplined : program.disciplined = true) (member : instruction ∈ program)
    (holds : instruction = .nested part ∨ instruction = .suspended part) :
    part.disciplined = true := by
  have sound := (disciplined_iff.mp disciplined).2 instruction member
  rcases holds with rfl | rfl
  · simp only [Instruction.sound] at sound
    exact sound
  · simp [Instruction.sound] at sound

theorem take_append {demands : List Demand} {stack lower : List Shape}
    (found : take demands stack = some lower) (base : List Shape) :
    take demands (stack ++ base) = some (lower ++ base) := by
  induction demands generalizing stack with
  | nil =>
      cases found
      rfl
  | cons demand demands ih =>
      cases stack with
      | nil => cases found
      | cons shape stack =>
          simp only [take, List.cons_append] at found ⊢
          split at found
          · rename_i accepted
            rw [if_pos accepted]
            exact ih found
          · cases found

theorem scan_append (left right : Program) (stack : List Shape) :
    scan (left ++ right) stack = (scan left stack).bind (scan right) := by
  induction left generalizing stack with
  | nil => rfl
  | cons instruction rest ih =>
      simp only [List.cons_append, scan]
      cases take instruction.demands stack with
      | none => rfl
      | some lower => exact ih _

/-- What lies below makes no difference. -/
theorem scan_frame {program : Program} {stack after : List Shape}
    (found : scan program stack = some after) (base : List Shape) :
    scan program (stack ++ base) = some (after ++ base) := by
  induction program generalizing stack with
  | nil =>
      cases found
      rfl
  | cons instruction rest ih =>
      simp only [scan] at found ⊢
      cases taken : take instruction.demands stack with
      | none => simp [taken] at found
      | some lower =>
          rw [taken] at found
          rw [take_append taken base]
          simp only [← List.append_assoc]
          exact ih found

end Formula
