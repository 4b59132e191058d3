import Formula.Kernel
import Formula.Graph.Run

/-!
The kernel of a graph: each node in steps, for arguments of known kinds and shapes. What cannot be
computed for them is refused here, before anything is computed.
-/

namespace Formula

namespace Trace

/-- A function of numbers; integers and truth values are taken for numbers. -/
def numeric (function : UnaryFunction) (operand : Nat) : Draft Nat := do
  Draft.unary function (← Draft.convert .float operand)

/-- A change that leaves integers and truth values as they are. -/
def onFloats (change : Nat → Draft Nat) (operand : Nat) : Draft Nat := do
  if (← Draft.stepAt operand).kind = .float then change operand else return operand

/-- A change that truth values do not have. -/
def unlessBool (change : Nat → Draft Nat) (operand : Nat) : Draft Nat := do
  if (← Draft.stepAt operand).kind = .bool then throw .arrays else change operand

/-- Two operands brought to one shape. -/
def aligned (left right : Nat) : Draft (Nat × Nat) := do
  let shape ← Tensor.commonShape (← Draft.stepAt left).shape (← Draft.stepAt right).shape
  return (← Draft.broadcast shape left, ← Draft.broadcast shape right)

/-- A function of two operands, which are brought to one shape and to one kind. -/
def joined (kind : ElementKind → ElementKind) (function : BinaryFunction) (left right : Nat) :
    Draft Nat := do
  let (left, right) ← aligned left right
  let wide := kind ((← Draft.stepAt left).kind.join (← Draft.stepAt right).kind)
  Draft.binary function (← Draft.convert wide left) (← Draft.convert wide right)

/-- Whether elements count as met. -/
def truth (operand : Nat) : Draft Nat := do
  let step ← Draft.stepAt operand
  if step.kind = .bool then return operand
  else
    let nothing ← Draft.filled ((Element.int 0).widen step.kind) step.shape
    Draft.binary .unequal operand nothing

/-- A logarithm in a fixed base. -/
def logarithm (base : Float32) (operand : Nat) : Draft Nat := do
  let above ← numeric .log operand
  let below ← Draft.unary .log (← Draft.number base above)
  Draft.binary .divide above below

def round (operand : Nat) : Draft Nat := do
  let operand ← Draft.convert .float operand
  Draft.unary .floor (← Draft.binary .add operand (← Draft.number 0.5 operand))

def truncate (operand : Nat) : Draft Nat := do
  let negative ← Draft.binary .less operand (← Draft.number 0.0 operand)
  Draft.choose negative (← Draft.unary .ceiling operand) (← Draft.unary .floor operand)

def gamma (operand : Nat) : Draft Nat := do
  let operand ← Draft.convert .float operand
  let size ← Draft.unary .exp (← Draft.unary .logGamma operand)
  Draft.binary .multiply (← Draft.unary .gammaSign operand) size

def factorial (operand : Nat) : Draft Nat := do
  let operand ← Draft.convert .float operand
  gamma (← Draft.binary .add operand (← Draft.number 1.0 operand))

/-- The steps of an operator with one operand. -/
def unary? (symbol : Text) : Option (Nat → Draft Nat) :=
  let table : List (String × (Nat → Draft Nat)) :=
    [("-", unlessBool (Draft.unary .negate)), ("+", pure),
     ("abs", fun operand => do
       if (← Draft.stepAt operand).kind = .bool then return operand
       else Draft.unary .magnitude operand),
     ("sin", numeric .sin), ("cos", numeric .cos), ("tan", numeric .tan), ("asin", numeric .arcSine),
     ("acos", numeric .arcCosine), ("atan", numeric .arcTangent), ("sinh", numeric .sinh),
     ("cosh", numeric .cosh), ("tanh", numeric .tanh), ("asinh", numeric .arSinh),
     ("acosh", numeric .arCosh), ("atanh", numeric .arTanh), ("sqrt", numeric .squareRoot),
     ("cbrt", numeric .cubeRoot), ("log", numeric .log), ("ln", numeric .log),
     ("log2", logarithm 2.0), ("lg", logarithm 10.0), ("log10", logarithm 10.0),
     ("expm1", numeric .expm1), ("log1p", numeric .log1p), ("exp", numeric .exp),
     ("ceil", onFloats (Draft.unary .ceiling)), ("floor", onFloats (Draft.unary .floor)),
     ("round", round), ("trunc", onFloats truncate), ("sign", unlessBool (Draft.unary .sign)),
     ("not", fun operand => do Draft.unary .logicalNot (← truth operand)), ("!", factorial)]
  (table.find? fun entry => Text.ofString entry.1 == symbol).map (·.2)

/-- A function of two numbers. -/
def numericPair (function : BinaryFunction) : Nat → Nat → Draft Nat :=
  joined (fun _ => .float) function

/-- A function with another meaning for truth values. -/
def withBools (function onBools : BinaryFunction) (left right : Nat) : Draft Nat := do
  if (← Draft.stepAt left).kind = .bool ∧ (← Draft.stepAt right).kind = .bool then
    joined id onBools left right
  else joined id function left right

def subtract (left right : Nat) : Draft Nat := do
  if (← Draft.stepAt left).kind = .bool ∧ (← Draft.stepAt right).kind = .bool then throw .arrays
  else joined id .subtract left right

/-- The remainder of a truncated division of numbers, moved to the side of the divisor. -/
def remainderOfFloats (left right : Nat) : Draft Nat := do
  let (left, right) ← aligned left right
  let dividend ← Draft.convert .float left
  let divisor ← Draft.convert .float right
  let nothing ← Draft.number 0.0 dividend
  let rest ← Draft.binary .truncatedRemainder dividend divisor
  let aside ← Draft.binary .unequal (← Draft.binary .less rest nothing)
    (← Draft.binary .less divisor nothing)
  let moved ← Draft.binary .conjunction aside (← Draft.binary .unequal rest nothing)
  Draft.choose moved (← Draft.binary .add rest divisor) rest

def remainder (left right : Nat) : Draft Nat := do
  if ((← Draft.stepAt left).kind.join (← Draft.stepAt right).kind) = .float then
    remainderOfFloats left right
  else joined (fun _ => .int) .remainder left right

/-- The length of a vector of two numbers: the larger one times a root of which the smaller one in
units of the larger is a part. -/
def hypotenuse (left right : Nat) : Draft Nat := do
  let (left, right) ← aligned left right
  let left ← numeric .magnitude left
  let right ← numeric .magnitude right
  let larger ← Draft.binary .maximum left right
  let smaller ← Draft.binary .minimum left right
  let vanishes ← Draft.binary .equal larger (← Draft.number 0.0 larger)
  let one ← Draft.number 1.0 larger
  let ratio ← Draft.binary .divide smaller (← Draft.choose vanishes one larger)
  let root ← Draft.unary .squareRoot
    (← Draft.binary .add one (← Draft.binary .multiply ratio ratio))
  Draft.choose vanishes larger (← Draft.binary .multiply larger root)

def logical (function : BinaryFunction) (left right : Nat) : Draft Nat := do
  joined id function (← truth left) (← truth right)

/-- The steps of an operator with two operands. -/
def binary? (symbol : Text) : Option (Nat → Nat → Draft Nat) :=
  let table : List (String × (Nat → Nat → Draft Nat)) :=
    [("+", withBools .add .disjunction), ("-", subtract), ("*", withBools .multiply .conjunction),
     ("/", numericPair .divide), ("%", remainder), ("^", numericPair .power),
     ("==", joined id .equal), ("!=", joined id .unequal), ("<", joined id .less),
     ("<=", joined id .lessEqual), (">", joined id .greater), (">=", joined id .greaterEqual),
     ("and", logical .conjunction), ("or", logical .disjunction)]
  (table.find? fun entry => Text.ofString entry.1 == symbol).map (·.2)

/-- A choice element by element. -/
def choose (condition yes no : Nat) : Draft Nat := do
  let condition ← truth condition
  let shape ← Tensor.commonShape (← Draft.stepAt condition).shape (← Draft.stepAt yes).shape
  let shape ← Tensor.commonShape shape (← Draft.stepAt no).shape
  let kind := (← Draft.stepAt yes).kind.join (← Draft.stepAt no).kind
  let yes ← Draft.broadcast shape (← Draft.convert kind yes)
  let no ← Draft.broadcast shape (← Draft.convert kind no)
  Draft.choose (← Draft.broadcast shape condition) yes no

/-- The sum of all elements; truth values are counted. -/
def sum (operand : Nat) : Draft Nat := do
  let kind := (← Draft.stepAt operand).kind
  Draft.total (← Draft.convert (if kind = .float then .float else .int) operand)

/-- The best of all elements of one operand, or of several operands. -/
def extremum (greatest : Bool) : List Nat → Draft Nat
  | [] => throw .arrays
  | [operand] => do
    let step ← Draft.stepAt operand
    if volume step.shape = 0 then throw .arrays
    else if step.shape = [] then return operand
    else Draft.emit ⟨.best greatest, [operand], step.kind, []⟩
  | first :: rest => rest.foldlM (joined id (if greatest then .maximum else .minimum)) first

/-- Rows side by side. -/
def stack (operands : List Nat) : Draft Nat := do
  match ← operands.mapM Draft.stepAt with
  | [] => Draft.constant ⟨.float, [0], []⟩
  | first :: rest =>
    if rest.all (·.shape = first.shape) then
      let kind := rest.foldl (fun kind step => kind.join step.kind) first.kind
      let operands ← operands.mapM (Draft.convert kind)
      Draft.emit ⟨.stack, operands, kind, operands.length :: first.shape⟩
    else throw .arrays

def call (name : Text) (inputs : List Nat) : Draft Nat :=
  let is (wanted : String) : Bool := name == Text.ofString wanted
  match inputs with
  | [operand] =>
    if is "max" then extremum true inputs
    else if is "min" then extremum false inputs
    else if is "gamma" then gamma operand
    else if is "fac" then factorial operand
    else if is "sum" then sum operand
    else throw .arrays
  | [left, right] =>
    if is "max" then extremum true inputs
    else if is "min" then extremum false inputs
    else if is "hypot" || is "pyt" then hypotenuse left right
    else if is "pow" then numericPair .power left right
    else if is "atan2" then numericPair .angle left right
    else throw .arrays
  | inputs =>
    if is "max" then extremum true inputs
    else if is "min" then extremum false inputs
    else
      match is "if", inputs with
      | true, [condition, yes, no] => choose condition yes no
      | _, _ => throw .arrays

/-- The steps of a node. Arguments are known by name: the place of each and its tensor, if it is not
missing. -/
def node (arguments : List (Text × Nat × Option Tensor)) (operation : NodeOperation)
    (inputs : List (Option Nat)) : Draft Nat := do
  match operation, inputs with
  | .argument name, _ =>
    match List.lookup name arguments with
    | some (place, some tensor) => Draft.emit ⟨.argument place, [], tensor.kind, tensor.shape⟩
    | _ => throw .arrays
  | .constant value, _ => Draft.constant (← Tensor.ofConstant value)
  | .unary symbol, some operand :: _ =>
    match unary? symbol with
    | some change => change operand
    | none => throw .arrays
  | .binary symbol, some left :: some right :: _ =>
    match binary? symbol with
    | some combine => combine left right
    | none => throw .arrays
  | .call name, inputs => call name (← Graph.allThere inputs)
  | .vector, inputs => stack (← Graph.allThere inputs)
  | .choose, [some condition, some yes, some no] => choose condition yes no
  | .unknown title, _ => throw (.evaluation (.unknownNode title))
  | _, _ => throw .arrays

end Trace

/-- The kernel of a graph for arguments like the given ones. Of two arguments of one name the later one
counts. -/
def Graph.kernel (graph : Graph) (arguments : List (Option Tensor)) : Except Failure Kernel := do
  let named := (graph.arguments.zip ((List.range arguments.length).zip arguments)).reverse
  let nodes := graph.nodes.toList
  let (values, steps) ← (Graph.runNodes (Trace.node named) nodes.length nodes #[]).run #[]
  match values[graph.output]? with
  | some output => return { steps := steps, output := output }
  | none => refuseArrays

end Formula
