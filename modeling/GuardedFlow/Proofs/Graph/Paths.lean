import Mathlib.Logic.Relation
import GuardedFlow.Proofs.Graph.Adjacency

/-!
# Graphs that are built, and their paths

A graph comes about by adding nodes and edges. These are the graphs whose adjacency lists are right:
`Graph.built_iff_consistent`. Edges and paths are defined by the edges alone, in whatever order they were
inserted; in a graph that was built, successors and predecessors follow them forwards and backwards.
-/

namespace GuardedFlow.Graph

variable {N E : Type} {g k : Graph N E}

/-- The graphs that come about by adding nodes and edges. -/
inductive Built : Graph N E → Prop
  | empty : Built .empty
  | addNode {g : Graph N E} (hg : Built g) (payload : N) : Built (g.addNode payload).2
  | addEdge {g k : Graph N E} {source target : NodeId} {payload : E} {id : EdgeId} (hg : Built g)
      (hadd : g.addEdge source target payload = .ok (id, k)) : Built k

/-- An edge leads from one node to another. -/
def Edge (g : Graph N E) (source target : NodeId) : Prop :=
  ∃ link ∈ g.edges, link.source = source ∧ link.target = target

/-- A directed path leads from one node to another; every node has the path without edges to itself. -/
def Path (g : Graph N E) : NodeId → NodeId → Prop := Relation.ReflTransGen g.Edge

/-- The targets of the edges that leave a node, in the order in which the edges were inserted. -/
def targets (g : Graph N E) (n : NodeId) : List NodeId := (g.linksFrom n).map Link.target

/-- The targets of a node are those of its edges. -/
theorem mem_targets {n m : NodeId} : m ∈ g.targets n ↔ g.Edge n m := by
  unfold targets linksFrom Edge
  rw [List.mem_map]
  constructor
  · rintro ⟨link, hlink, htarget⟩
    obtain ⟨hmem, hsource⟩ := List.mem_filter.mp hlink
    exact ⟨link, Array.mem_def.mpr hmem, eq_of_beq hsource, htarget⟩
  · rintro ⟨link, hlink, hsource, htarget⟩
    exact ⟨link, List.mem_filter.mpr ⟨Array.mem_def.mp hlink, by simp [hsource]⟩, htarget⟩

/-! ### Building a graph -/

/-- An edge is added if both ends are nodes of the graph. -/
theorem addEdge_ok {source target : NodeId} {payload : E} {id : EdgeId}
    (h : g.addEdge source target payload = .ok (id, k)) :
    source < g.nodeCount ∧ target < g.nodeCount ∧ k = g.link source target payload := by
  unfold addEdge at h
  by_cases hsource : g.hasNode source
  · by_cases htarget : g.hasNode target
    · simp only [hsource, htarget, Bool.not_true, Bool.false_eq_true, if_false, Except.ok.injEq,
        Prod.mk.injEq] at h
      exact ⟨by simpa [hasNode] using hsource, by simpa [hasNode] using htarget, h.2.symm⟩
    · simp [hsource, htarget] at h
  · simp [hsource] at h

/-- A graph with one more edge is built. -/
theorem Built.link (hg : g.Built) {source target : NodeId} (hsource : source < g.nodeCount)
    (htarget : target < g.nodeCount) (payload : E) : (g.link source target payload).Built := by
  have hadd : g.addEdge source target payload = .ok (g.edgeCount, g.link source target payload) := by
    simp [Graph.addEdge, hasNode, hsource, htarget]
  exact hg.addEdge hadd

/-- The adjacency lists of a graph that was built are right. -/
theorem Built.consistent (hg : g.Built) : g.Consistent := by
  induction hg with
  | empty => exact consistent_empty
  | addNode _ payload ih => exact ih.addNode payload
  | addEdge _ hadd ih =>
    obtain ⟨hsource, htarget, rfl⟩ := addEdge_ok hadd
    exact ih.link hsource htarget _

/-- Adjacency lists that are right are determined by the nodes and the edges. -/
theorem Consistent.ext (hg : g.Consistent) (hk : k.Consistent) (hnodes : g.nodes = k.nodes)
    (hedges : g.edges = k.edges) : g = k := by
  have hcount : g.nodeCount = k.nodeCount := congrArg Array.size hnodes
  have hleaving : g.leaving = k.leaving := by
    refine Array.ext_getElem? fun n => ?_
    by_cases hn : n < g.nodeCount
    · rw [hg.leaving n hn, hk.leaving n (hcount ▸ hn), idsOf_congr hedges]
    · rw [Array.getElem?_eq_none (hg.leaving_size ▸ Nat.le_of_not_lt hn),
        Array.getElem?_eq_none (hk.leaving_size ▸ hcount ▸ Nat.le_of_not_lt hn)]
  have hentering : g.entering = k.entering := by
    refine Array.ext_getElem? fun n => ?_
    by_cases hn : n < g.nodeCount
    · rw [hg.entering n hn, hk.entering n (hcount ▸ hn), idsOf_congr hedges]
    · rw [Array.getElem?_eq_none (hg.entering_size ▸ Nat.le_of_not_lt hn),
        Array.getElem?_eq_none (hk.entering_size ▸ hcount ▸ Nat.le_of_not_lt hn)]
  cases g
  cases k
  simp_all

/-- The graph with the given nodes and edges. -/
def assemble (nodes : List N) (links : List (Link E)) : Graph N E :=
  links.foldl (fun g link => g.link link.source link.target link.payload)
    (nodes.foldl (fun g payload => (g.addNode payload).2) empty)

/-- Nodes are added one after another. -/
theorem foldl_addNode (hg : g.Built) (nodes : List N) :
    (nodes.foldl (fun g payload => (g.addNode payload).2) g).Built ∧
      (nodes.foldl (fun g payload => (g.addNode payload).2) g).nodes.toList = g.nodes.toList ++ nodes ∧
      (nodes.foldl (fun g payload => (g.addNode payload).2) g).edges = g.edges := by
  induction nodes generalizing g with
  | nil => exact ⟨hg, (List.append_nil _).symm, rfl⟩
  | cons payload rest ih =>
    obtain ⟨hbuilt, hnodes, hedges⟩ := ih (hg.addNode payload)
    exact ⟨hbuilt, by simpa [addNode] using hnodes, hedges⟩

/-- Edges between nodes of the graph are added one after another. -/
theorem foldl_link (hg : g.Built) (links : List (Link E))
    (h : ∀ link ∈ links, link.source < g.nodeCount ∧ link.target < g.nodeCount) :
    (links.foldl (fun g link => g.link link.source link.target link.payload) g).Built ∧
      (links.foldl (fun g link => g.link link.source link.target link.payload) g).nodes = g.nodes ∧
      (links.foldl (fun g link => g.link link.source link.target link.payload) g).edges.toList =
        g.edges.toList ++ links := by
  induction links generalizing g with
  | nil => exact ⟨hg, rfl, (List.append_nil _).symm⟩
  | cons link rest ih =>
    obtain ⟨hsource, htarget⟩ := h link List.mem_cons_self
    obtain ⟨hbuilt, hnodes, hedges⟩ := ih (hg.link hsource htarget link.payload)
      fun other hother => h other (List.mem_cons_of_mem _ hother)
    exact ⟨hbuilt, hnodes, by simpa [Graph.link] using hedges⟩

/-- All nodes and then all edges can be added one after another. -/
theorem built_assemble {nodes : List N} {links : List (Link E)}
    (h : ∀ link ∈ links, link.source < nodes.length ∧ link.target < nodes.length) :
    (assemble nodes links).Built ∧ (assemble nodes links).nodes.toList = nodes ∧
      (assemble nodes links).edges.toList = links := by
  obtain ⟨hbuilt, hnodes, hedges⟩ := foldl_addNode (E := E) .empty nodes
  have hcount := congrArg List.length hnodes
  rw [Array.length_toList] at hcount
  obtain ⟨hbuilt', hnodes', hedges'⟩ := foldl_link hbuilt links fun link hlink => by
    rw [nodeCount, hcount]
    exact h link hlink
  exact ⟨hbuilt', hnodes' ▸ hnodes, by rw [assemble, hedges', hedges]; rfl⟩

/-- The graphs whose adjacency lists are right are those that come about by adding nodes and edges. -/
theorem built_iff_consistent : g.Built ↔ g.Consistent := by
  refine ⟨Built.consistent, fun hg => ?_⟩
  have hlinks : ∀ link ∈ g.edges.toList,
      link.source < g.nodes.toList.length ∧ link.target < g.nodes.toList.length := fun link hlink =>
    ⟨hg.source_lt link (Array.mem_def.mpr hlink), hg.target_lt link (Array.mem_def.mpr hlink)⟩
  obtain ⟨hbuilt, hnodes, hedges⟩ := built_assemble hlinks
  have heq := hbuilt.consistent.ext hg (Array.toList_inj.mp hnodes) (Array.toList_inj.mp hedges)
  exact heq ▸ hbuilt

/-! ### Following edges -/

namespace Consistent

variable {n m : NodeId}

/-- The successors of a node are the targets of its edges, in order of insertion. -/
theorem successors_eq (hg : g.Consistent) : g.successors = g.targets := by
  funext n
  rw [targets, ← hg.outgoing_links n, List.map_map]
  rfl

/-- The successors of a node are those that an edge leads to. -/
theorem mem_successors (hg : g.Consistent) : m ∈ g.successors n ↔ g.Edge n m := by
  rw [hg.successors_eq, mem_targets]

/-- The predecessors of a node are the sources of the edges that enter it. -/
theorem mem_predecessors_iff (hg : g.Consistent) : m ∈ g.predecessors n ↔ g.Edge m n :=
  hg.mem_predecessors

/-- Edges join nodes of the graph. -/
theorem edge_lt (hg : g.Consistent) (h : g.Edge n m) : n < g.nodeCount ∧ m < g.nodeCount := by
  obtain ⟨link, hlink, rfl, rfl⟩ := h
  exact ⟨hg.source_lt link hlink, hg.target_lt link hlink⟩

/-- A path stays in the graph, so both of its ends are nodes of the graph or neither is. -/
theorem path_lt_iff (hg : g.Consistent) (h : g.Path n m) : n < g.nodeCount ↔ m < g.nodeCount := by
  induction h with
  | refl => exact Iff.rfl
  | tail _ hedge ih =>
    obtain ⟨hsource, htarget⟩ := hg.edge_lt hedge
    exact ih.trans (iff_of_true hsource htarget)

end Consistent

end GuardedFlow.Graph
