import Formula.Graph.Run

/-!
Batches: a graph run once for each row of its arguments.
-/

namespace Formula

namespace Graph

/-- A row of zeros, of the shape that the rows of a tensor have. -/
def blankRow (tensor : Tensor) : Tensor :=
  let shape := tensor.shape.drop 1
  ⟨tensor.kind, shape, List.replicate (volume shape) ((Element.bool false).widen tensor.kind)⟩

/-- The rows of an argument, none if it is missing. -/
def rowsOf (argument : Argument) : Except Failure (Option (List Tensor)) := do
  match ← argument.toTensor? with
  | some tensor => (tensor.rows).map some
  | none => return none

/-- The arguments of one run: a row each, and nothing for what is missing. -/
def argumentsAt (position : Nat) (rows : List (Option (List Tensor))) : List Argument :=
  rows.map fun rows => ((rows.bind (·[position]?)).map .tensor).getD .missing

/-- The values of the graph for each row of its arguments, as the rows of one tensor. There must be an
argument, and all must have the same count of rows. -/
def batch (graph : Graph) (arguments : List Argument) : Except Failure Tensor := do
  let rows ← arguments.mapM rowsOf
  match (rows.filterMap id).map List.length with
  | [] => refuseArrays
  | count :: others =>
    if others.any (· ≠ count) then refuseArrays
    else if count = 0 then
      let blank ← arguments.mapM fun argument => do
        let tensor ← argument.toTensor?
        return (tensor.map fun tensor => Argument.tensor (blankRow tensor)).getD .missing
      let sample ← graph.runWith false blank
      return ⟨sample.kind, 0 :: sample.shape, []⟩
    else
      let results ← (List.range count).mapM fun position =>
        graph.runWith false (argumentsAt position rows)
      Tensor.stack results

end Graph

end Formula
