import GuardedFlow.Ty
import GuardedFlow.Real.Layout
import GuardedFlow.Text.Label
import GuardedFlow.Stmt
import GuardedFlow.Graph.Walk
import GuardedFlow.Code.Transfer
import GuardedFlow.Code.Builder
import GuardedFlow.Idiom
import GuardedFlow.Diagnostic
import GuardedFlow.Flow.Text
import GuardedFlow.Flow.Draft
import GuardedFlow.Program.Batch
import GuardedFlow.Proofs.Lowering.Emission
import GuardedFlow.Proofs.Code.Transfer
import GuardedFlow.Proofs.Lowering.Accesses
import GuardedFlow.Proofs.Lowering.Allocations
import GuardedFlow.Proofs.Lowering.Control
import GuardedFlow.Proofs.Lowering.Leaders
import GuardedFlow.Proofs.Lowering.Tagging
import GuardedFlow.Proofs.Meaning.Basic
import GuardedFlow.Proofs.Meaning.Computation
import GuardedFlow.Proofs.Meaning.Preservation
import GuardedFlow.Proofs.Flow.Numbers
import GuardedFlow.Proofs.Lowering.Agreement
import GuardedFlow.Proofs.Program.Isolation
import GuardedFlow.Proofs.Lowering.Effects
import GuardedFlow.Proofs.Lowering.InstructionEffects
import GuardedFlow.Proofs.Lowering.Sites
import GuardedFlow.Proofs.Program.Sessions
import GuardedFlow.Proofs.Lowering.Places
import GuardedFlow.Proofs.Program.Order
import GuardedFlow.Proofs.Meaning.Marks
import GuardedFlow.Proofs.Meaning.Creation
import GuardedFlow.Proofs.Lowering.Closedness
import GuardedFlow.Proofs.Lowering.Temporaries
import GuardedFlow.Proofs.Program.Partition
import GuardedFlow.Proofs.Lowering.Acceptance
import GuardedFlow.Proofs.Program.Batches
import GuardedFlow.Proofs.Program.Signatures
import GuardedFlow.Proofs.Graph.Preorder
import GuardedFlow.Proofs.Flow.Reachability
import GuardedFlow.Proofs.Lowering.ResolvedCalls
import GuardedFlow.Proofs.Graph.History
import GuardedFlow.Proofs.Code.Labels
import GuardedFlow.Proofs.Meaning.Dataflow
import GuardedFlow.Proofs.Flow.Drawing
