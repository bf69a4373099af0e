import FrameLisp.Main
import FrameLisp.Proofs.Evaluation.Adequacy
import FrameLisp.Proofs.Reading.Shape
import FrameLisp.Proofs.Reading.Steps
import FrameLisp.Proofs.Reading.Grammar
import FrameLisp.Proofs.Reading.Stability
import FrameLisp.Proofs.Reading.Acceptance
import FrameLisp.Proofs.Reading.Incremental
import FrameLisp.Proofs.Number.Digits
import FrameLisp.Proofs.Number.Rounding
import FrameLisp.Proofs.Number.Shortest
import FrameLisp.Proofs.Number.Text
import FrameLisp.Proofs.Number.Bits
import FrameLisp.Proofs.Reading.Words
import FrameLisp.Proofs.Reading.RoundTrip
import FrameLisp.Proofs.Heap.Frames
import FrameLisp.Proofs.Evaluation.Primitives
import FrameLisp.Proofs.Evaluation.Coupling
import FrameLisp.Proofs.Expr.Captures
import FrameLisp.Proofs.Session.Requests
import FrameLisp.Proofs.Heap.Writes
import FrameLisp.Proofs.Heap.WellFormed
import FrameLisp.Proofs.Heap.Locality
import FrameLisp.Proofs.Evaluation.Calls
import FrameLisp.Proofs.Evaluation.Lockstep
import FrameLisp.Proofs.Evaluation.Stops
import FrameLisp.Proofs.Heap.Mapped
import FrameLisp.Proofs.Policies.Inheritance
import FrameLisp.Proofs.Expr.Bodies
import FrameLisp.Proofs.Policies.Comparison
import FrameLisp.Proofs.Heap.Readable
import FrameLisp.Proofs.Reading.Roots
import FrameLisp.Proofs.Session.Buffers
import FrameLisp.Proofs.Session.Limits
import FrameLisp.Proofs.Evaluation.Guarded
import FrameLisp.Proofs.Session.Provenance
import FrameLisp.Proofs.Session.Quoting
import FrameLisp.Proofs.Reading.Layout
import FrameLisp.Proofs.Session.Loading
import FrameLisp.Proofs.Session.Conversation
import FrameLisp.Proofs.Session.DeepValues
import FrameLisp.Proofs.Session.Sequencing
import FrameLisp.Proofs.Reading.Runs
import FrameLisp.Proofs.Number.Nearest
import FrameLisp.Proofs.Number.Values
import FrameLisp.Proofs.Number.Literals
import FrameLisp.Proofs.Number.Significant
import FrameLisp.Proofs.Heap.Visibility
import FrameLisp.Proofs.Evaluation.Contract
import FrameLisp.Proofs.Heap.Parameters
import FrameLisp.Proofs.Session.Termination
import FrameLisp.Proofs.Evaluation.Timeline
import FrameLisp.Proofs.Evaluation.Logged
import FrameLisp.Proofs.Session.Identity
import FrameLisp.Proofs.Number.Numerals
import FrameLisp.Proofs.Settings
