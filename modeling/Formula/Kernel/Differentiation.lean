import Formula.Kernel

/-!
Gradients of kernels: the steps are visited from the output back, and each hands its share of the
output's change on to its inputs, in steps that are added to the kernel.
-/

namespace Formula

namespace Differentiation

def add : Nat → Nat → Draft Nat := Draft.binary .add

def subtract : Nat → Nat → Draft Nat := Draft.binary .subtract

def multiply : Nat → Nat → Draft Nat := Draft.binary .multiply

def divide : Nat → Nat → Draft Nat := Draft.binary .divide

def negate : Nat → Draft Nat := Draft.unary .negate

def square (operand : Nat) : Draft Nat := multiply operand operand

def ones (like : Nat) : Draft Nat := Draft.number 1.0 like

def zeros (like : Nat) : Draft Nat := Draft.number 0.0 like

/-- One over the square. -/
def inverseSquare (operand : Nat) : Draft Nat := do
  divide (← ones operand) (← square operand)

/-- One over the root of one less the square. -/
def inverseCoSize (operand : Nat) : Draft Nat := do
  Draft.unary .inverseRoot (← subtract (← ones operand) (← square operand))

/-- What of a share goes where a condition holds. -/
def whereTrue (condition share : Nat) : Draft Nat := do
  Draft.choose condition share (← zeros share)

def whereFalse (condition share : Nat) : Draft Nat := do
  Draft.choose condition (← zeros share) share

/-- The share that the operand of a function receives, from the operand, the function's value and the
share of that; nothing if the function is flat. -/
def throughUnary (function : UnaryFunction) (operand value share : Nat) : Option (Draft Nat) :=
  match function with
  | .negate => some (negate share)
  | .magnitude => some do
    let positive ← Draft.binary .greaterEqual operand (← zeros operand)
    add (← whereTrue positive share) (← negate (← whereFalse positive share))
  | .exp => some (multiply share value)
  | .expm1 => some do multiply share (← add value (← ones value))
  | .log => some (divide share operand)
  | .log1p => some do divide share (← add operand (← ones operand))
  | .squareRoot => some do multiply share (← divide (← Draft.number 0.5 value) value)
  | .cubeRoot => some do
    multiply share (← multiply (← Draft.number (1.0 / 3.0) value) (← inverseSquare value))
  | .sin => some do multiply share (← Draft.unary .cos operand)
  | .cos => some do multiply (← negate share) (← Draft.unary .sin operand)
  | .tan => some do multiply share (← add (← ones value) (← square value))
  | .arcSine => some do multiply share (← inverseCoSize operand)
  | .arcCosine => some do multiply share (← negate (← inverseCoSize operand))
  | .arcTangent => some do divide share (← add (← ones operand) (← square operand))
  | .sinh => some do multiply share (← Draft.unary .cosh operand)
  | .cosh => some do multiply share (← Draft.unary .sinh operand)
  | .tanh => some do
    let part ← multiply share (← subtract (← ones value) value)
    add part (← multiply part value)
  | .arSinh => some do
    multiply share (← Draft.unary .inverseRoot (← add (← square operand) (← ones operand)))
  | .arCosh => some do
    let less ← subtract operand (← ones operand)
    let more ← add operand (← ones operand)
    multiply share (← Draft.unary .inverseRoot (← multiply less more))
  | .arTanh => some do
    let part ← multiply share (← divide (← ones operand) (← add (← ones operand) operand))
    divide part (← subtract (← ones operand) operand)
  | .logGamma => some do multiply share (← Draft.unary .digamma operand)
  | _ => none

/-- A number, or one instead of zero. -/
def unlessZero (operand : Nat) : Draft Nat := do
  let kind := (← Draft.stepAt operand).kind
  let shape := (← Draft.stepAt operand).shape
  let nothing ← Draft.filled ((Element.int 0).widen kind) shape
  let single ← Draft.filled ((Element.int 1).widen kind) shape
  Draft.choose (← Draft.binary .equal operand nothing) single operand

/-- The integer of which a step is the number. -/
def integer? (operand : Nat) : Draft (Option Nat) := do
  let step ← Draft.stepAt operand
  match step.primitive, step.inputs with
  | .convert, [source] =>
    return if (← Draft.stepAt source).kind = .int then some source else none
  | _, _ => return none

/-- How a power changes with its base. An integer exponent of zero leaves no change. -/
def slopeOfBase (base exponent : Nat) : Draft Nat := do
  match ← integer? exponent with
  | some times =>
    let shape := (← Draft.stepAt times).shape
    let nothing ← Draft.filled (.int 0) shape
    let less ← Draft.binary .subtract times (← Draft.filled (.int 1) shape)
    let factor ← Draft.convert .float (← unlessZero times)
    let slope ← multiply factor (← Draft.binary .power base (← Draft.convert .float less))
    Draft.choose (← Draft.binary .equal times nothing) (← zeros slope) slope
  | none =>
    let less ← subtract exponent (← ones exponent)
    multiply exponent (← Draft.binary .power base less)

/-- The share of one of two competitors: all if it is the best, half if both are. -/
def ofBest (competitor other best share : Nat) : Draft Nat := do
  let wins ← Draft.choose (← Draft.binary .equal competitor best) (← ones best) (← zeros best)
  let ties ← Draft.choose (← Draft.binary .equal other best) (← Draft.number 2.0 best) (← ones best)
  multiply share (← divide wins ties)

/-- The shares that the operands of a function of two receive. -/
def throughBinary (function : BinaryFunction) (left right value share : Nat) :
    Option (Draft Nat × Draft Nat) :=
  match function with
  | .add => some (pure share, pure share)
  | .subtract => some (pure share, negate share)
  | .multiply => some (multiply share right, multiply left share)
  | .divide => some (divide share right, do
      negate (← multiply (← multiply share (← inverseSquare right)) left))
  | .truncatedRemainder => some (pure share, do
      let quotient ← divide left right
      let whole ← Draft.unary .floor (← Draft.unary .magnitude quotient)
      negate (← multiply share (← multiply (← Draft.unary .sign quotient) whole)))
  | .power => some (
      do multiply share (← slopeOfBase left right),
      do multiply share (← multiply (← Draft.unary .log (← unlessZero left)) value))
  | .angle => some (
      do multiply share (← divide right (← add (← square left) (← square right))),
      do multiply share (← divide (← negate left) (← add (← square left) (← square right))))
  | .maximum | .minimum => some (ofBest left right value share, ofBest right left value share)
  | _ => none

/-- The shares that the elements of a tensor receive from the best of them: equal ones share alike. -/
def throughBest (operand value share : Nat) : Draft Nat := do
  let shape := (← Draft.stepAt operand).shape
  let found ← Draft.binary .equal operand (← Draft.broadcast shape value)
  let places ← Draft.convert .float found
  let each ← divide share (← Draft.total places)
  multiply (← Draft.broadcast shape each) places

/-- The inputs of a step with the shares that they receive, the last input first. -/
def handedOn (step : Step) (value share : Nat) : Draft (List (Nat × Draft Nat)) := do
  match step.primitive, step.inputs with
  | .unary function, [operand] =>
    return ((throughUnary function operand value share).map fun made => (operand, made)).toList
  | .binary function, [left, right] =>
    match throughBinary function left right value share with
    | some (toLeft, toRight) => return [(right, toRight), (left, toLeft)]
    | none => return []
  | .choose, [condition, yes, no] =>
    return [(no, whereFalse condition share), (yes, whereTrue condition share)]
  | .broadcast, [operand] =>
    let shape := (← Draft.stepAt operand).shape
    return [(operand, Draft.gather shape share)]
  | .total, [operand] =>
    let shape := (← Draft.stepAt operand).shape
    return [(operand, Draft.broadcast shape share)]
  | .best _, [operand] => return [(operand, throughBest operand value share)]
  | .stack, operands =>
    return (operands.zipIdx.map fun (operand, place) =>
      (operand, Draft.emit ⟨.row place, [share], step.kind, step.shape.drop 1⟩)).reverse
  | _, _ => return []

/-- Which steps change with the numbers of an argument. -/
def moving (place : Nat) (steps : List Step) : Array Bool :=
  steps.foldl (fun found step =>
    found.push (step.kind == .float &&
      (step.primitive == .argument place || step.inputs.any (found.getD · false)))) #[]

/-- The shares that steps have received so far. -/
abbrev Shares := Array (Option Nat)

/-- Adds to the share of a step, if it moves. -/
def receive (moves : Array Bool) (shares : Shares) (input : Nat) (made : Draft Nat) :
    Draft Shares := do
  if moves.getD input false then
    let share ← made
    let sum ← match shares.getD input none with
      | some before => add before share
      | none => pure share
    return shares.setIfInBounds input (some sum)
  else return shares

/-- Visits steps from the last on and hands on what each has received. -/
def visit (moves : Array Bool) : List (Step × Nat) → Shares → Draft Shares
  | [], shares => return shares
  | (step, position) :: rest, shares => do
    match shares.getD position none with
    | some share =>
      let inputs ← handedOn step position share
      let shares ← inputs.foldlM (fun shares (input, made) => receive moves shares input made) shares
      visit moves rest shares
    | none => visit moves rest shares

end Differentiation

/-- The kernel of the gradient with respect to an argument of a shape. The output must be a single
number. -/
def Kernel.gradient (kernel : Kernel) (place : Nat) (shape : List Nat) : Except Failure Kernel := do
  let steps := kernel.steps.toList
  let moves := Differentiation.moving place steps
  let draft : Draft Nat := do
    let output ← Draft.stepAt kernel.output
    if output.kind ≠ .float ∨ output.shape ≠ [] then throw .arrays
    else if moves.getD kernel.output false then
      let start := Array.replicate steps.length none
      let whole ← Draft.number 1.0 kernel.output
      let shares ← Differentiation.visit moves steps.zipIdx.reverse
        (start.setIfInBounds kernel.output (some whole))
      let found := (steps.findIdx? (·.primitive == .argument place)).bind fun position =>
        shares.getD position none
      match found with
      | some share => return share
      | none => Draft.filled (.float 0.0) shape
    else Draft.filled (.float 0.0) shape
  let (output, steps) ← draft.run kernel.steps
  return { steps := steps, output := output }

end Formula
