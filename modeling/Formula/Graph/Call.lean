import Formula.Graph.Batch
import Formula.Kernel.Trace
import Formula.Kernel.Differentiation
import Formula.Kernel.Fusion
import Formula.Operation.Sequence

/-!
Calling graphs as functions of their arguments, which are given by position or by name.
-/

namespace Formula

/-- What a graph is asked for. -/
inductive CallMode where
  /-- Its value, each argument being converted where it is read. -/
  | plain
  /-- The value of its kernel, all arguments being converted first. -/
  | compiled
  /-- The gradient with respect to one argument, counted from the end if negative. -/
  | gradient (argument : Int)
  /-- Its values for the rows of the arguments. -/
  | batch
  deriving Repr

/-- The value of a kernel that is made simpler first. -/
def Kernel.runSimplified (kernel : Kernel) (arguments : List (Option Tensor)) :
    Except Failure Tensor := do
  let kernel ← kernel.simplify 50
  kernel.fuse.run arguments

namespace Graph

/-- The arguments in the order of their names. -/
def order (graph : Graph) (positional : List Argument) (named : List (Text × Argument)) :
    Except Failure (List Argument) :=
  if !positional.isEmpty && !named.isEmpty then .error (.evaluation .mixedArguments)
  else if named.isEmpty then
    if positional.length = graph.arguments.length then .ok positional
    else .error (.evaluation (.argumentCount graph.arguments.length positional.length))
  else
    let given := named.map (·.1)
    let missing := graph.arguments.filter fun name => !given.contains name
    let extra := given.filter fun name => !graph.arguments.contains name
    if missing.isEmpty && extra.isEmpty then
      .ok (graph.arguments.filterMap (List.lookup · named))
    else .error (.evaluation (.signatureMismatch missing extra))

/-- The kernel of the gradient with respect to an argument, which must hold numbers. -/
def gradientKernel (graph : Graph) (arguments : List (Option Tensor)) (argument : Int) :
    Except Failure Kernel := do
  match Sequence.placeOf? arguments.length argument with
  | none => refuseArrays
  | some place =>
    match arguments[place]? with
    | some (some tensor) =>
      if tensor.kind = .float then do
        let kernel ← graph.kernel arguments
        kernel.gradient place tensor.shape
      else refuseArrays
    | _ => refuseArrays

/-- What the graph gives for arguments in order. -/
def answer (graph : Graph) (mode : CallMode) (arguments : List Argument) :
    Except Failure Tensor := do
  match mode with
  | .plain => graph.run arguments
  | .compiled =>
    let tensors ← arguments.mapM Argument.toTensor?
    let kernel ← graph.kernel tensors
    kernel.runSimplified tensors
  | .gradient argument =>
    let tensors ← arguments.mapM Argument.toTensor?
    let kernel ← graph.gradientKernel tensors argument
    kernel.runSimplified tensors
  | .batch => graph.batch arguments

/-- What the graph gives for arguments by position or by name. Lists become tensors before anything
else is looked at. -/
def call (graph : Graph) (mode : CallMode) (positional : List Constant)
    (named : List (Text × Constant)) : Except Failure Tensor := do
  let positional ← positional.mapM Argument.ofConstant
  let named ← named.mapM fun (name, constant) =>
    (Argument.ofConstant constant).map fun argument => (name, argument)
  let arguments ← graph.order positional named
  graph.answer mode arguments

end Graph

end Formula
