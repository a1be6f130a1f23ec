import WasmCore.Link.Instantiate
import WasmCore.Binary.Module
import WasmCore.Value.Text
import WasmCore.Proofs.Typing.Declarative
import WasmCore.Proofs.Typing.Recursive
import WasmCore.Proofs.Typing.Decides
import WasmCore.Proofs.Typing.Exact
import WasmCore.Proofs.Typing.Checked
import WasmCore.Proofs.Store.WellFormed
import WasmCore.Proofs.Store.History
import WasmCore.Proofs.Store.Extension
import WasmCore.Proofs.Exec.Moves
import WasmCore.Proofs.Exec.Activation
import WasmCore.Proofs.Exec.Control
import WasmCore.Proofs.Exec.Typing
import WasmCore.Proofs.Exec.Soundness
import WasmCore.Proofs.Exec.Effects
import WasmCore.Proofs.Link.Instances
import WasmCore.Proofs.Link.Segments
import WasmCore.Proofs.Link.Rollback
import WasmCore.Proofs.Link.Integrity
import WasmCore.Proofs.Link.Atomicity
import WasmCore.Proofs.Exec.Safety
import WasmCore.Proofs.Link.Permanence
import WasmCore.Proofs.Exec.Structured
import WasmCore.Proofs.Exec.Simulation
import WasmCore.Proofs.Exec.Refinement
import WasmCore.Proofs.Binary.Grammar
import WasmCore.Proofs.Binary.Reads
import WasmCore.Proofs.Binary.Integers
import WasmCore.Proofs.Binary.Items
import WasmCore.Proofs.Binary.Opcodes
import WasmCore.Proofs.Binary.Expressions
import WasmCore.Proofs.Binary.Sections
import WasmCore.Proofs.Binary.Conformance
import WasmCore.Proofs.Binary.Shortest
import WasmCore.Proofs.Binary.Encoder
import WasmCore.Proofs.Binary.RoundTrip
import WasmCore.Proofs.Exec.Footprint
import WasmCore.Proofs.Exec.Fuel
import WasmCore.Proofs.Typing.Constants
import WasmCore.Proofs.Link.Spans
import WasmCore.Proofs.Link.Definitions
import WasmCore.Proofs.Link.Matching
import WasmCore.Proofs.Link.Limits
import WasmCore.Proofs.Link.Refusal
import WasmCore.Proofs.Store.Pairing
import WasmCore.Proofs.Exec.Lockstep
import WasmCore.Proofs.Exec.Isolation
import WasmCore.Proofs.Link.Twins
import WasmCore.Proofs.Link.Placement
import WasmCore.Proofs.Binary.Customs
import WasmCore.Proofs.Typing.Validity
import WasmCore.Proofs.Link.Stability
import WasmCore.Proofs.Link.IndexSpaces
import WasmCore.Proofs.Link.Overlay
import WasmCore.Proofs.Typing.Locality
import WasmCore.Proofs.Typing.Descent
import WasmCore.Proofs.Typing.Floor
import WasmCore.Proofs.Typing.Discipline
import WasmCore.Proofs.Binary.Descent
import WasmCore.Proofs.Link.Initialisers
import WasmCore.Proofs.Exec.Access
import WasmCore.Proofs.Exec.Termination
import WasmCore.Proofs.Link.Growth
import WasmCore.Proofs.Binary.Truncation
import WasmCore.Proofs.Exec.Depth
import WasmCore.Proofs.Numeric.Dyadic
import WasmCore.Proofs.Numeric.Instructions
import WasmCore.Proofs.Numeric.Truncation
import WasmCore.Proofs.Numeric.Words
import WasmCore.Proofs.Binary.Outcomes
import WasmCore.Proofs.Binary.Confinement
import WasmCore.Proofs.Binary.Progress
