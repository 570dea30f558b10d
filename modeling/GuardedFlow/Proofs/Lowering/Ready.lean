import GuardedFlow.Proofs.Graph.Adjacency
import GuardedFlow.Proofs.Lowering.Emission

/-!
# Paths that can be left

No edge leaves the open block until the path that stands in it is left. `LoweringState.Ready` states this
of a state; a step between two jumps keeps it, because it closes the block together with the only edge
that it adds. In such a state the open block can be joined to every block of the graph.
-/

namespace GuardedFlow

/-- The adjacency lists of the graph are right, and the open block is a block of the graph that no edge
leaves. -/
structure LoweringState.Ready (s : LoweringState) : Prop where
  consistent : s.draft.graph.Consistent
  sink : Flow.sink < s.draft.graph.nodeCount
  openBlock : ∀ block, s.openBlock = some block →
    block < s.draft.graph.nodeCount ∧ s.draft.graph.linksFrom block = []

/-- Appending statements and ending the path keep a state ready. -/
theorem Emits.ready {s t : LoweringState} {out : List Stmt} {fin : Option PathEnd}
    (h : Emits s out fin t) (hs : s.Ready) : t.Ready := by
  have hcount := h.nodeCount
  have hgraph := h.graph
  cases hopen : s.openBlock with
  | none =>
    rw [hopen] at hgraph
    refine ⟨hgraph ▸ hs.consistent, hcount ▸ hs.sink, fun block hblock => ?_⟩
    rw [(h.still_open hblock).2] at hopen
    contradiction
  | some block =>
    rw [hopen] at hgraph
    dsimp only at hgraph
    obtain ⟨hlt, hfree⟩ := hs.openBlock block hopen
    have hextend : (s.draft.graph.extend block out).Consistent := hs.consistent.modifyNode ..
    have hextends : (s.draft.graph.extend block out).nodeCount = s.draft.graph.nodeCount :=
      Array.size_modify ..
    refine ⟨?_, hcount ▸ hs.sink, fun other hother => ?_⟩
    · rw [hgraph]
      rcases fin with _ | _ | _
      · exact hextend
      · exact hextend
      · exact hextend.link (hextends ▸ hlt) (hextends ▸ hs.sink) none
    · obtain ⟨rfl, hother⟩ := h.still_open hother
      rw [hopen] at hother
      cases hother
      rw [hcount, hgraph]
      exact ⟨hlt, hfree⟩

namespace Lower

variable {s : LoweringState}

/-- Two blocks of the graph that no edge joins can be joined. -/
theorem connect_free {source target : BlockId} (hgraph : s.draft.graph.Consistent)
    (hsource : source < s.draft.graph.nodeCount) (htarget : target < s.draft.graph.nodeCount)
    (hfree : ∀ link ∈ s.draft.graph.linksFrom source, link.target ≠ target) (guard : Guard) :
    connect source target guard s = .ok ()
      { s with draft := { s.draft with graph := s.draft.graph.link source target guard } } := by
  have hnone : ¬ (s.draft.graph.findEdge source target).isSome := by
    intro hsome
    obtain ⟨link, hlink, hends, hend⟩ := (hgraph.findEdge_isSome_iff source target).mp hsome
    apply hfree link _ hend
    exact List.mem_filter.mpr ⟨Array.mem_def.mp hlink, by simp [hends]⟩
  rw [connect_run, if_neg hnone]
  simp [Graph.addEdge, Graph.hasNode, hsource, htarget]

/-- A return succeeds if a block is open. -/
theorem returnVoid_ready (hs : s.Ready) {block : BlockId} (hopen : s.openBlock = some block) :
    ∃ t, returnVoid s = .ok () t := by
  obtain ⟨hlt, hfree⟩ := hs.openBlock block hopen
  have hconnect : connect block Flow.sink none s = .ok () _ :=
    connect_free hs.consistent hlt hs.sink (by simp [hfree]) none
  rw [returnVoid_run, hopen]
  simp only [hconnect]
  exact ⟨_, rfl⟩

end Lower

end GuardedFlow
