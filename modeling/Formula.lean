import Formula.Text.Letter
import Formula.Text.Word
import Formula.Text.Quoted
import Formula.Number.Layout
import Formula.Number.Reading
import Formula.Number.Elementary
import Formula.Number.Hypotenuse
import Formula.Number.Single.Gamma
import Formula.Heap
import Formula.Dialect
import Formula.Grammar
import Formula.Program.Listing
import Formula.Message
import Formula.Operation.Action
import Formula.Operation.Comparison
import Formula.Operation.Mathematics
import Formula.Text.Reserved
import Formula.Operation.Arithmetic
import Formula.Operation.Sequence
import Formula.Operation.Apply
import Formula.State
import Formula.Member
import Formula.Machine
import Formula.Program.Substitution
import Formula.Program.Symbols
import Formula.Program.Rendering
import Formula.Simplification
import Formula.Graph
import Formula.Lowering
import Formula.Session
import Formula.Tensor
import Formula.Tensor.Elementwise
import Formula.Graph.Run
import Formula.Graph.Batch
import Formula.Kernel
import Formula.Kernel.Trace
import Formula.Kernel.Differentiation
import Formula.Kernel.Simplification
import Formula.Kernel.Fusion
import Formula.Graph.Call
import Formula.Proofs.Trust
import Formula.Proofs.Circulation
import Formula.Proofs.Preservation
import Formula.Proofs.Running
import Formula.Proofs.Gate
import Formula.Proofs.Refinement
import Formula.Proofs.Correctness
import Formula.Proofs.Precedence
import Formula.Proofs.Imitation
import Formula.Proofs.Mirroring
import Formula.Proofs.Reenactment
import Formula.Proofs.Refusal
import Formula.Proofs.Replaying
import Formula.Proofs.Registry
import Formula.Proofs.Framing
import Formula.Proofs.Splicing
import Formula.Proofs.Inlining
import Formula.Proofs.Agreement
import Formula.Proofs.Reading
import Formula.Proofs.Location
import Formula.Proofs.Lookahead
import Formula.Proofs.Permission
import Formula.Proofs.Borders
import Formula.Proofs.Gaps
import Formula.Proofs.Continuation
import Formula.Proofs.Sequencing
import Formula.Proofs.Grouping
import Formula.Proofs.Product
import Formula.Proofs.Variables
import Formula.Proofs.Isolation
import Formula.Proofs.Joining
import Formula.Proofs.Constants
import Formula.Proofs.Naming
import Formula.Proofs.Paths
import Formula.Proofs.Statistics
import Formula.Proofs.Settling
import Formula.Proofs.Numerals
import Formula.Proofs.Reduction
import Formula.Proofs.Promotion
import Formula.Proofs.Rounding
import Formula.Proofs.Halves
import Formula.Proofs.Outcome
import Formula.Proofs.Integers
import Formula.Proofs.RoundTrip
