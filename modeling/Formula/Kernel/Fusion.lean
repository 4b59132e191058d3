import Formula.Kernel.Simplification

/-!
Fused steps: a product whose only use is a sum or a difference is rounded together with that.
-/

namespace Formula

namespace Fusion

/-- How often each step is used by steps that the output needs. -/
def uses (kernel : Kernel) : Array Nat :=
  let needed := Simplification.needed kernel
  let counts := (Array.replicate kernel.steps.size 0).modify kernel.output (· + 1)
  (kernel.steps.zip needed).foldl (fun counts (step, isNeeded) =>
    if isNeeded then step.inputs.foldl (fun counts input => counts.modify input (· + 1)) counts
    else counts) counts

/-- The factors of a product of numbers that is used once. -/
def factors? (steps : Array Step) (counts : Array Nat) (position : Nat) : Option (Nat × Nat) :=
  match steps[position]? with
  | some step =>
    match step.primitive, step.inputs, step.kind, counts.getD position 0 with
    | .binary .multiply, [left, right], .float, 1 => some (left, right)
    | _, _, _, _ => none
  | none => none

/-- A step with a product that belongs to it alone taken in; of two products the left one. -/
def fuse (steps : Array Step) (counts : Array Nat) (step : Step) : Step :=
  match step.primitive, step.inputs, step.kind with
  | .binary .add, [left, right], .float =>
    match factors? steps counts left, factors? steps counts right with
    | some (a, b), _ => { step with primitive := .fused false false, inputs := [a, b, right] }
    | none, some (a, b) => { step with primitive := .fused false false, inputs := [a, b, left] }
    | none, none => step
  | .binary .subtract, [left, right], .float =>
    match factors? steps counts left, factors? steps counts right with
    | some (a, b), _ => { step with primitive := .fused false true, inputs := [a, b, right] }
    | none, some (a, b) => { step with primitive := .fused true false, inputs := [a, b, left] }
    | none, none => step
  | _, _, _ => step

end Fusion

def Kernel.fuse (kernel : Kernel) : Kernel :=
  { kernel with steps := kernel.steps.map (Fusion.fuse kernel.steps (Fusion.uses kernel)) }

end Formula
