import Formula.Kernel

/-!
Simpler kernels: steps on constants are taken beforehand, and steps on numbers are exchanged for
others that would be equal if numbers were exact. Rounding and overflow can differ after that.
-/

namespace Formula

namespace Simplification

/-- How a step can be made from steps that are there: elementwise, with one kind and shape. -/
inductive Recipe where
  | at (position : Nat)
  | number (value : Float32)
  | unary (function : UnaryFunction) (operand : Recipe)
  | binary (function : BinaryFunction) (left right : Recipe)
  | choose (condition yes no : Recipe)

/-- What a step of numbers looks like from a step that it is an input of. -/
inductive Form where
  | constant
  | unary (function : UnaryFunction) (operand : Nat)
  | binary (function : BinaryFunction) (left right : Nat)
  /-- Ones where a condition holds, zeros elsewhere. -/
  | indicator (condition : Nat)
  | other

variable (steps : Array Step)

def kindAt (position : Nat) : Option ElementKind := (steps[position]?).map (·.kind)

def form (position : Nat) : Form :=
  match steps[position]? with
  | some step =>
    match step.primitive, step.inputs with
    | .constant _, _ => .constant
    | .unary function, [operand] => .unary function operand
    | .binary function, [left, right] => .binary function left right
    | .convert, [operand] =>
      if kindAt steps operand = some .bool then .indicator operand else .other
    | _, _ => .other
  | none => .other

def constant? (position : Nat) : Option Tensor :=
  match steps[position]? with
  | some step =>
    match step.primitive with
    | .constant value => some value
    | _ => none
  | none => none

def isConstant (position : Nat) : Bool := (constant? steps position).isSome

/-- The number that all elements of a constant equal; zeros may have either sign. -/
def number? (position : Nat) : Option Float32 :=
  match constant? steps position with
  | some value =>
    match value.elements with
    | .float first :: rest =>
      if rest.all (fun element => element.toFloat == first) && first == first then some first else none
    | _ => none
  | none => none

/-- Whether all elements of a constant equal a number. -/
def isNumber (value : Float32) (position : Nat) : Bool := (number? steps position).any (· == value)

/-- Whether a number is a power of two, up to sign. -/
def isPowerOfTwo (number : Float32) : Bool :=
  number.toBits.toNat % twoTo 23 = 0 && !Single.isZero number && number.isFinite

/-- Whether no element can be negative. -/
def isNonnegative (position : Nat) : Bool :=
  match form steps position with
  | .unary .magnitude _ | .unary .exp _ => true
  | .binary .multiply left right => left == right
  | .constant => (number? steps position).any (0.0 ≤ ·)
  | _ => false

/-- A sum: zeros go, constants stand on the right and are put together, and a power of two is taken out
of both terms. -/
def sum (left right : Nat) : Option Recipe :=
  if isNumber steps 0.0 right then some (.at left)
  else if isNumber steps 0.0 left then some (.at right)
  else if isConstant steps left then some (.binary .add (.at right) (.at left))
  else
    match form steps left, form steps right with
    | .binary .add inner constant, .constant =>
      if isConstant steps constant then
        some (.binary .add (.at inner) (.binary .add (.at constant) (.at right)))
      else none
    | .binary .multiply one factor, .binary .multiply other same =>
      if factor == same && (number? steps factor).any isPowerOfTwo then
        some (.binary .multiply (.binary .add (.at one) (.at other)) (.at factor))
      else none
    | _, _ => none

/-- A difference: zeros go, and a constant is added with the other sign. -/
def difference (left right : Nat) : Option Recipe :=
  if isNumber steps 0.0 right then some (.at left)
  else if isConstant steps right then
    some (.binary .add (.at left) (.unary .negate (.at right)))
  else none

/-- A product: ones go, constants stand on the right and are put together, an indicator makes a choice,
and exponentials are put together. -/
def product (left right : Nat) : Option Recipe :=
  if isNumber steps 1.0 right then some (.at left)
  else if isNumber steps 1.0 left then some (.at right)
  else if isConstant steps left then some (.binary .multiply (.at right) (.at left))
  else
    match form steps left, form steps right with
    | .indicator condition, _ => some (.choose (.at condition) (.at right) (.number 0.0))
    | _, .indicator condition => some (.choose (.at condition) (.at left) (.number 0.0))
    | .unary .magnitude operand, .unary .magnitude other =>
      if operand == other then some (.binary .multiply (.at operand) (.at operand)) else none
    | .unary .exp operand, .unary .exp other =>
      some (.unary .exp (.binary .add (.at operand) (.at other)))
    | .binary .multiply one first, .binary .multiply other second =>
      if isConstant steps first && isConstant steps second then
        some (.binary .multiply (.binary .multiply (.at one) (.at other))
          (.binary .multiply (.at first) (.at second)))
      else if isConstant steps first then
        some (.binary .multiply (.binary .multiply (.at one) (.at right)) (.at first))
      else if isConstant steps second then
        some (.binary .multiply (.binary .multiply (.at other) (.at left)) (.at second))
      else none
    | .binary .multiply one first, .constant =>
      if isConstant steps first then
        some (.binary .multiply (.at one) (.binary .multiply (.at first) (.at right)))
      else none
    | .binary .multiply one first, _ =>
      if isConstant steps first then
        some (.binary .multiply (.binary .multiply (.at one) (.at right)) (.at first))
      else none
    | _, .binary .multiply other second =>
      if isConstant steps second then
        some (.binary .multiply (.binary .multiply (.at other) (.at left)) (.at second))
      else none
    | _, _ => none

/-- A quotient: exponentials, powers and roots are turned round, a constant divisor becomes a factor,
and of quotients one remains. -/
def quotient (left right : Nat) : Option Recipe :=
  if isNumber steps 1.0 right then some (.at left)
  else
    match form steps left, form steps right with
    | .unary .exp above, .unary .exp below =>
      some (.unary .exp (.binary .subtract (.at above) (.at below)))
    | _, .unary .exp below =>
      some (.binary .multiply (.at left) (.unary .exp (.unary .negate (.at below))))
    | _, .binary .power base exponent =>
      some (.binary .multiply (.at left)
        (.binary .power (.at base) (.unary .negate (.at exponent))))
    | _, .unary .squareRoot below =>
      some (.binary .multiply (.at left) (.unary .inverseRoot (.at below)))
    | _, .unary .inverseRoot below =>
      some (.binary .multiply (.at left) (.unary .squareRoot (.at below)))
    | _, .constant => some (.binary .multiply (.at left) (.binary .divide (.number 1.0) (.at right)))
    | .binary .divide a b, .binary .divide c d =>
      some (.binary .divide (.binary .multiply (.at a) (.at d)) (.binary .multiply (.at b) (.at c)))
    | .binary .divide a b, _ =>
      some (.binary .divide (.at a) (.binary .multiply (.at b) (.at right)))
    | _, .binary .divide b c =>
      some (.binary .divide (.binary .multiply (.at left) (.at c)) (.at b))
    | _, _ => none

/-- A power: small constant exponents make products or quotients, and an exponential takes the exponent
in. -/
def power (base exponent : Nat) : Option Recipe :=
  let square : Recipe := .binary .multiply (.at base) (.at base)
  if isNumber steps 0.0 exponent then some (.number 1.0)
  else if isNumber steps 1.0 exponent then some (.at base)
  else
    match form steps base with
    | .unary .exp operand => some (.unary .exp (.binary .multiply (.at operand) (.at exponent)))
    | _ =>
      if isNumber steps 2.0 exponent then some square
      else if isNumber steps 3.0 exponent then some (.binary .multiply (.at base) square)
      else if isNumber steps (-1.0) exponent then
        some (.binary .divide (.number 1.0) (.at base))
      else none

/-- A logarithm of an exponential, a power or a root. -/
def logarithm (operand : Nat) : Option Recipe :=
  match form steps operand with
  | .unary .exp inner => some (.at inner)
  | .binary .power base exponent =>
    some (.binary .multiply (.unary .log (.unary .magnitude (.at base))) (.at exponent))
  | .unary .squareRoot inner => some (.binary .multiply (.number 0.5) (.unary .log (.at inner)))
  | _ => none

def unary (function : UnaryFunction) (operand : Nat) : Option Recipe :=
  match function, form steps operand with
  | .negate, .unary .negate inner => some (.at inner)
  | .logicalNot, .unary .logicalNot inner => some (.at inner)
  | .magnitude, _ => if isNonnegative steps operand then some (.at operand) else none
  | .squareRoot, .binary .multiply left right =>
    if left == right then some (.unary .magnitude (.at left)) else none
  | .log, _ => logarithm steps operand
  | _, _ => none

def binary (function : BinaryFunction) (left right : Nat) : Option Recipe :=
  match function with
  | .add => sum steps left right
  | .subtract => difference steps left right
  | .multiply => product steps left right
  | .divide => quotient steps left right
  | .power => power steps left right
  | .maximum | .minimum => if left == right then some (.at left) else none
  | _ => none

/-- A choice that is known, or between equals, or by the contrary of a condition. -/
def choose (condition yes no : Nat) : Option Recipe :=
  if yes == no then some (.at yes)
  else
    match constant? steps condition, form steps condition with
    | some value, _ =>
      if value.elements.all (· == .bool true) then some (.at yes)
      else if value.elements.all (· == .bool false) then some (.at no)
      else none
    | none, .unary .logicalNot inner => some (.choose (.at inner) (.at no) (.at yes))
    | none, _ => none

/-- A simpler way to make a step, if there is one. -/
def simpler (step : Step) : Option Recipe :=
  match step.primitive, step.inputs, step.kind with
  | .unary function, [operand], .float => unary steps function operand
  | .unary .logicalNot, [operand], .bool => unary steps .logicalNot operand
  | .binary function, [left, right], .float => binary steps function left right
  | .choose, [condition, yes, no], _ => choose steps condition yes no
  | _, _, _ => none

/-- A function of numbers as it is worked out beforehand: in double precision, then rounded. -/
def exactly (function : UnaryFunction) : Option (Float → Float) :=
  match function with
  | .exp => some Float.exp
  | .log => some Float.log
  | .sin => some Float.sin
  | .cos => some Float.cos
  | .tan => some Float.tan
  | .tanh => some Float.tanh
  | .squareRoot => some Float.sqrt
  | _ => none

/-- The value of a step all of whose inputs are constants. -/
def folded? (step : Step) : Option Tensor := do
  let inputs ← step.inputs.mapM (constant? steps)
  match step.primitive, inputs with
  | .argument _, _ | .constant _, _ => none
  | .unary function, [operand] =>
    match exactly function, step.kind with
    | some exact, .float =>
      some (operand.map .float fun element => .ofDouble (exact element.toDouble))
    | _, _ => (step.run [] [operand]).toOption
  | _, inputs => (step.run [] inputs).toOption

/-- Makes the steps of a recipe, for elements of a kind and a shape. Each is placed in its own way. -/
def Recipe.make (place : Step → Draft Nat) (kind : ElementKind) (shape : List Nat) :
    Recipe → Draft Nat
  | .at position => return position
  | .number value => Draft.filled (.float value) shape
  | .unary function operand => do
    let operand ← operand.make place kind shape
    place ⟨.unary function, [operand], kind, shape⟩
  | .binary function left right => do
    let left ← left.make place kind shape
    let right ← right.make place kind shape
    place ⟨.binary function, [left, right], kind, shape⟩
  | .choose condition yes no => do
    let condition ← condition.make place .bool shape
    let yes ← yes.make place kind shape
    let no ← no.make place kind shape
    place ⟨.choose, [condition, yes, no], kind, shape⟩

/-- The position of the simplest step that does what the given one does, with a bound on how often a
step is made simpler. -/
def place : Nat → Step → Draft Nat
  | 0, step => Draft.emit step
  | bound + 1, step => do
    let steps ← get
    match folded? steps step, simpler steps step with
    | some value, _ => Draft.constant value
    | none, some recipe => recipe.make (place bound) step.kind step.shape
    | none, none => Draft.emit step

/-- Which steps the output needs: the output itself, and the inputs of needed steps. -/
def needed (kernel : Kernel) : Array Bool :=
  kernel.steps.toList.zipIdx.reverse.foldl (fun found (step, position) =>
    if found.getD position false then
      step.inputs.foldl (fun found input => found.setIfInBounds input true) found
    else found)
    ((Array.replicate kernel.steps.size false).setIfInBounds kernel.output true)

/-- Places the needed steps again, with their inputs at the new positions. -/
def replace (bound : Nat) : List (Step × Bool) → Array Nat → Draft (Array Nat)
  | [], moved => return moved
  | (step, isNeeded) :: rest, moved => do
    if isNeeded then
      let inputs := step.inputs.map (moved.getD · 0)
      let position ← place bound { step with inputs := inputs }
      replace bound rest (moved.push position)
    else replace bound rest (moved.push 0)

/-- One pass over a kernel. -/
def pass (bound : Nat) (kernel : Kernel) : Except Failure Kernel := do
  let (moved, steps) ← (replace bound (kernel.steps.zip (needed kernel)).toList #[]).run #[]
  return { steps := steps, output := moved.getD kernel.output 0 }

end Simplification

/-- Passes over a kernel until nothing changes any more, at most as many as given. -/
def Kernel.simplify : Nat → Kernel → Except Failure Kernel
  | 0, kernel => .ok kernel
  | passes + 1, kernel => do
    let simpler ← Simplification.pass 64 kernel
    if simpler = kernel then return kernel else Kernel.simplify passes simpler

end Formula
