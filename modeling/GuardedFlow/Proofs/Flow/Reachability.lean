import GuardedFlow.Proofs.Graph.Postorder
import GuardedFlow.Proofs.Lowering.Shape

/-!
# Reaching the sink

The graph of a lowered method is built like any other, block by block and edge by edge. So the walks over it
are exact, and whether a block reaches the sink can be asked in two ways: forwards from the block, or
backwards from the sink. `Session.flowOf_reachability` says that both give the same answer.
-/

namespace GuardedFlow

namespace Flow

variable {flow : Flow} {block : BlockId}

/-- Forwards from a block the sink is found if backwards from the sink the block is. -/
theorem reachesSink_iff (hgraph : flow.graph.Consistent) :
    flow.reachesSink block ↔ block ∈ flow.reachingSink := by
  rw [reachesSink, List.contains_iff_mem, reachingSink, hgraph.mem_reachable, hgraph.mem_reaching]
  exact and_congr_left fun hpath => hgraph.path_lt_iff hpath

end Flow

namespace Session

/-- The graph of a lowered method is built from nodes and edges, whatever the oracle counts. -/
theorem flowOf_built {body : Body} {oracle : PredecessorOracle} {p q : Program} {flow : Flow}
    (h : flowOf body oracle p = .ok flow q) : flow.graph.Built := by
  obtain ⟨t, hstream, rfl, rfl⟩ := flowOf_ok h
  obtain ⟨_, u, hrun, hclose⟩ := Lower.bind_ok hstream
  obtain ⟨hpending, hempty⟩ := pending_passed hrun
  obtain ⟨hawaits, -⟩ := hpending.close hempty hclose
  exact Graph.built_iff_consistent.mpr hawaits.consistent

/-- Both walks are exact in every graph, and so a block of a lowered method reaches the sink if it is among
those that are found from the sink. -/
theorem flowOf_reachability {N E : Type} : (∀ g : Graph N E, g.Built → g.AnswersReachability) ∧
    ∀ (body : Body) (oracle : PredecessorOracle) (p q : Program) (flow : Flow),
      flowOf body oracle p = .ok flow q →
        flow.graph.AnswersReachability ∧
        ∀ block, flow.reachesSink block ↔ block ∈ flow.reachingSink := by
  refine ⟨fun g hg => hg.consistent.answersReachability, fun body oracle p q flow h => ?_⟩
  have hgraph := (flowOf_built h).consistent
  exact ⟨hgraph.answersReachability, fun _ => Flow.reachesSink_iff hgraph⟩

/-- A return, or a jump that jumps to itself. -/
def spinExample : Body where
  method := ⟨"Loop", "spin", [.boolean], .prim .void⟩
  isStatic := true
  isSynchronized := false
  locals := #[⟨"forever", .boolean⟩]
  code := #[⟨.branch (.slot 0) 2, .unknown⟩, ⟨.retVoid, .unknown⟩, ⟨.goto 2, .unknown⟩]

/-- From the jump to itself the sink is not found, nor the jump from the sink. -/
theorem flowOf_reachability_spin :
    (Graph.loopExample.Built ∧ Graph.loopExample.AnswersReachability) ∧ ∃ flow q,
      flowOf spinExample spinExample.predecessorOracle (.new .standard) = .ok flow q ∧
        (∀ block, flow.reachesSink block ↔ block ∈ flow.reachingSink) ∧
        flow.reachable = [0, 2, 3, 1] ∧ flow.reachingSink = [1, 3, 0] := by
  have hexact := flowOf_reachability (N := Unit) (E := Unit)
  have hbuilt : Graph.loopExample.Built := (Graph.built_assemble (by decide)).1
  obtain ⟨flow, h, horders⟩ := exists_ok_with
    (r := flowOf spinExample spinExample.predecessorOracle (.new .standard))
    (P := fun flow => flow.reachable = [0, 2, 3, 1] ∧ flow.reachingSink = [1, 3, 0]) (by decide +kernel)
  exact ⟨⟨hbuilt, hexact.1 _ hbuilt⟩, flow, _, h, (hexact.2 _ _ _ _ _ h).2, horders⟩

end Session

end GuardedFlow
