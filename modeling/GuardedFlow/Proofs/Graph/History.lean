import Mathlib.Algebra.BigOperators.Group.Finset.Piecewise
import GuardedFlow.Proofs.Graph.Paths

/-!
# Histories of graphs

A graph is the outcome of additions of nodes and edges, some of which are refused. Its history determines
the nodes and the edges (`Addition.payloads`, `Addition.links`), and these determine every answer about
neighbours: the adjacency lists say nothing of their own. `Graph.AnswersFromHistory` collects the answers
after any history, and what further additions leave as it is.
-/

namespace GuardedFlow.Graph

variable {N E : Type}

/-- An attempt to add something to a graph. -/
inductive Addition (N E : Type) where
  | node (payload : N)
  | edge (source target : NodeId) (payload : E)

namespace Addition

/-- The graph after an addition; one that is refused changes nothing. -/
def apply (g : Graph N E) : Addition N E → Graph N E
  | node payload => (g.addNode payload).2
  | edge source target payload =>
    match g.addEdge source target payload with
    | .ok (_, k) => k
    | .error _ => g

/-- The payloads of the nodes that a history adds. -/
def payloads : List (Addition N E) → List N
  | [] => []
  | node payload :: rest => payload :: payloads rest
  | edge .. :: rest => payloads rest

/-- The edges that a history adds to a graph with so many nodes: those between nodes that exist by then. -/
def links (count : Nat) : List (Addition N E) → List (Link E)
  | [] => []
  | node _ :: rest => links (count + 1) rest
  | edge source target payload :: rest =>
    if source < count ∧ target < count then ⟨source, target, payload⟩ :: links count rest
    else links count rest

end Addition

/-- The graph that a history leads to. -/
def ofHistory (history : List (Addition N E)) : Graph N E := history.foldl Addition.apply empty

/-! ### What a history adds -/

/-- An edge is added with the next number, unless the graph does not have one of its ends; a missing source
is reported first. -/
theorem addEdge_eq (g : Graph N E) (source target : NodeId) (payload : E) :
    g.addEdge source target payload =
      if source < g.nodeCount ∧ target < g.nodeCount then .ok (g.edgeCount, g.link source target payload)
      else .error (if source < g.nodeCount then .unknownTarget target g.nodeCount
        else .unknownSource source g.nodeCount) := by
  unfold addEdge hasNode
  by_cases hsource : source < g.nodeCount <;> by_cases htarget : target < g.nodeCount <;>
    simp [hsource, htarget]

/-- An edge is added between nodes of the graph, and refused otherwise. -/
theorem Addition.apply_edge (g : Graph N E) (source target : NodeId) (payload : E) :
    Addition.apply g (.edge source target payload) =
      if source < g.nodeCount ∧ target < g.nodeCount then g.link source target payload else g := by
  rw [apply, addEdge_eq]
  by_cases h : source < g.nodeCount ∧ target < g.nodeCount <;> simp [h]

/-- Each addition keeps the adjacency lists right. -/
theorem Consistent.apply {g : Graph N E} (hg : g.Consistent) (addition : Addition N E) :
    (addition.apply g).Consistent := by
  cases addition with
  | node payload => exact hg.addNode payload
  | edge source target payload =>
    rw [Addition.apply_edge]
    split
    · rename_i h
      exact hg.link h.1 h.2 payload
    · exact hg

/-- A history adds its nodes and its edges to those of the graph, and keeps the adjacency lists right. -/
theorem foldl_apply {g : Graph N E} (hg : g.Consistent) (history : List (Addition N E)) :
    (history.foldl Addition.apply g).Consistent ∧
      (history.foldl Addition.apply g).nodes.toList = g.nodes.toList ++ Addition.payloads history ∧
      (history.foldl Addition.apply g).edges.toList =
        g.edges.toList ++ Addition.links g.nodeCount history := by
  induction history generalizing g with
  | nil => exact ⟨hg, (List.append_nil _).symm, (List.append_nil _).symm⟩
  | cons addition rest ih =>
    obtain ⟨hrest, hnodes, hedges⟩ := ih (hg.apply addition)
    rw [List.foldl_cons, hnodes, hedges]
    refine ⟨hrest, ?_, ?_⟩
    · cases addition with
      | node payload => simp [Addition.apply, addNode, Addition.payloads]
      | edge source target payload =>
        rw [Addition.apply_edge, Addition.payloads]
        split <;> rfl
    · cases addition with
      | node payload =>
        have hcount : (Addition.apply g (.node payload)).nodeCount = g.nodeCount + 1 := Array.size_push _
        rw [hcount]
        rfl
      | edge source target payload =>
        rw [Addition.apply_edge, Addition.links]
        split
        · simp [link, nodeCount]
        · rfl

/-- The nodes and the edges of a graph are those that its history adds. -/
theorem ofHistory_eq (history : List (Addition N E)) :
    (ofHistory history).Consistent ∧ (ofHistory history).nodes.toList = Addition.payloads history ∧
      (ofHistory history).edges.toList = Addition.links 0 history := by
  simpa [empty, nodeCount, ofHistory] using foldl_apply (consistent_empty (N := N) (E := E)) history

/-! ### Answers about neighbours -/

/-- If the ends of edges are below a bound, each edge counts at one node below the bound. -/
theorem sum_length_filter (links : List (Link E)) (node : Link E → NodeId) {count : Nat}
    (h : ∀ link ∈ links, node link < count) :
    ∑ n ∈ Finset.range count, (links.filter (node · == n)).length = links.length := by
  induction links with
  | nil => simp
  | cons link rest ih =>
    have hone (n : NodeId) : ((link :: rest).filter (node · == n)).length =
        (if node link = n then 1 else 0) + (rest.filter (node · == n)).length := by
      by_cases hn : node link = n <;> simp [hn, Nat.add_comm]
    simp only [hone, Finset.sum_add_distrib]
    rw [ih fun other hother => h other (List.mem_cons_of_mem _ hother), Finset.sum_ite_eq,
      if_pos (Finset.mem_range.mpr (h link List.mem_cons_self)), List.length_cons, Nat.add_comm]

namespace Consistent

variable {g : Graph N E}

/-- Looking for an edge among those that leave its source finds the first of all edges with its ends. -/
theorem findEdge_eq (h : g.Consistent) (source target : NodeId) :
    g.findEdge source target =
      (List.range g.edgeCount).find? fun e => g.endpoints? e == some (source, target) := by
  have htest (e : EdgeId) : decide (g.edges[e]?.any (·.source == source) = true ∧
      (g.edges[e]?.map (e, ·)).any (·.2.target == target) = true) =
        (g.endpoints? e == some (source, target)) := by
    rw [Bool.eq_iff_iff, endpoints?]
    cases g.edges[e]? <;> simp
  rw [findEdge, outgoing, h.leaving_eq, idsOf, List.find?_filterMap, List.find?_filter]
  simp only [htest]
  cases hfind : (List.range g.edgeCount).find? fun e => g.endpoints? e == some (source, target) with
  | none => rfl
  | some e =>
    have hends := List.find?_some hfind
    unfold endpoints? at hends
    cases hlink : g.edges[e]? with
    | none => simp [hlink] at hends
    | some link => simp [hlink]

/-- The search finds the edge with the smallest number. -/
theorem findEdge_eq_some_iff (h : g.Consistent) {source target : NodeId} {e : EdgeId} :
    g.findEdge source target = some e ↔
      g.endpoints? e = some (source, target) ∧ ∀ f < e, g.endpoints? f ≠ some (source, target) := by
  rw [h.findEdge_eq, List.find?_range_eq_some]
  simp only [beq_iff_eq, List.mem_range, Bool.not_eq_true', beq_eq_false_iff_ne]
  constructor
  · exact fun ⟨hends, _, hfirst⟩ => ⟨hends, hfirst⟩
  · intro ⟨hends, hfirst⟩
    obtain ⟨link, hlink, -⟩ := Option.map_eq_some_iff.mp hends
    exact ⟨hends, (Array.getElem?_eq_some_iff.mp hlink).1, hfirst⟩

/-- The search fails if no edge has the two ends. -/
theorem findEdge_eq_none_iff (h : g.Consistent) {source target : NodeId} :
    g.findEdge source target = none ↔ ∀ e, g.endpoints? e ≠ some (source, target) := by
  rw [h.findEdge_eq, List.find?_eq_none]
  simp only [beq_iff_eq, List.mem_range]
  refine forall_congr' fun e => ⟨fun hnone hends => ?_, fun hnone _ => hnone⟩
  obtain ⟨link, hlink, -⟩ := Option.map_eq_some_iff.mp hends
  exact hnone (Array.getElem?_eq_some_iff.mp hlink).1 hends

/-- The numbers in the adjacency lists are numbers of edges. -/
theorem stored_lt (h : g.Consistent) :
    (∀ ids ∈ g.leaving, ∀ e ∈ ids, e < g.edgeCount) ∧ ∀ ids ∈ g.entering, ∀ e ∈ ids, e < g.edgeCount := by
  have hbound {test : Link E → Bool} {e : EdgeId} (he : e ∈ g.idsOf test) : e < g.edgeCount :=
    List.mem_range.mp (List.mem_filter.mp he).1
  constructor
  · intro ids hids e he
    obtain ⟨n, hn⟩ := Array.getElem?_of_mem hids
    have hlist := h.leaving_eq n
    rw [hn, Option.getD_some] at hlist
    exact hbound (hlist ▸ he)
  · intro ids hids e he
    obtain ⟨n, hn⟩ := Array.getElem?_of_mem hids
    have hlist := h.entering_eq n
    rw [hn, Option.getD_some] at hlist
    exact hbound (hlist ▸ he)

end Consistent

/-- All answers of a graph about nodes, edges and neighbours are those that follow from its history. -/
structure AnswersFromHistory (g : Graph N E) (history : List (Addition N E)) : Prop where
  /-- Nodes and edges are those that were added, in this order. -/
  contents : g.nodes.toList = Addition.payloads history ∧ g.edges.toList = Addition.links 0 history
  /-- The outgoing edges of a node are those whose source it is, in order of insertion. -/
  outgoing : ∀ n, g.outgoing n = g.edgeList.filter (·.2.source == n)
  /-- The incoming edges of a node are those whose target it is, in order of insertion. -/
  incoming : ∀ n, g.incoming n = g.edgeList.filter (·.2.target == n)
  successors : ∀ n, g.successors n =
    ((Addition.links 0 history).filter (·.source == n)).map Link.target
  predecessors : ∀ n, g.predecessors n =
    ((Addition.links 0 history).filter (·.target == n)).map Link.source
  degrees : ∀ n, g.outDegree n = (g.outgoing n).length ∧ g.inDegree n = (g.incoming n).length
  /-- Every edge counts for one node on either side. -/
  sums : ∑ n ∈ Finset.range g.nodeCount, g.outDegree n = g.edgeCount ∧
    ∑ n ∈ Finset.range g.nodeCount, g.inDegree n = g.edgeCount
  /-- The edge that is found from one node to another is the one with the smallest number. -/
  found : ∀ source target e, g.findEdge source target = some e ↔
    g.endpoints? e = some (source, target) ∧ ∀ f < e, g.endpoints? f ≠ some (source, target)
  /-- No edge is found from one node to another if there is none. -/
  absent : ∀ source target, g.findEdge source target = none ↔
    ∀ e, g.endpoints? e ≠ some (source, target)
  /-- Every node has its two lists, and no number in a list or at an edge is out of range. -/
  stored : g.leaving.size = g.nodeCount ∧ g.entering.size = g.nodeCount ∧
    (∀ ids ∈ g.leaving, ∀ e ∈ ids, e < g.edgeCount) ∧
    (∀ ids ∈ g.entering, ∀ e ∈ ids, e < g.edgeCount) ∧
    ∀ link ∈ g.edges, link.source < g.nodeCount ∧ link.target < g.nodeCount
  /-- Whatever is added later, a number goes on to stand for the same node or edge. -/
  kept : ∀ more : List (Addition N E),
    (∀ n payload, g.node? n = some payload → (more.foldl Addition.apply g).node? n = some payload) ∧
    (∀ e payload, g.edge? e = some payload → (more.foldl Addition.apply g).edge? e = some payload) ∧
    ∀ e ends, g.endpoints? e = some ends → (more.foldl Addition.apply g).endpoints? e = some ends
  /-- A new node gets the next number. -/
  addNode : ∀ payload, (g.addNode payload).1 = g.nodeCount ∧
    (g.addNode payload).2.node? g.nodeCount = some payload
  /-- A new edge between nodes of the graph gets the next number. -/
  addEdge : ∀ source target payload, source < g.nodeCount → target < g.nodeCount →
    ∃ k, g.addEdge source target payload = .ok (g.edgeCount, k) ∧
      k.edge? g.edgeCount = some payload ∧ k.endpoints? g.edgeCount = some (source, target)
  /-- An edge is refused if one of its ends is unknown, and the graph stays as it is. -/
  refused : ∀ source target payload, ¬ (source < g.nodeCount ∧ target < g.nodeCount) →
    g.addEdge source target payload = .error (if source < g.nodeCount
      then .unknownTarget target g.nodeCount else .unknownSource source g.nodeCount) ∧
    Addition.apply g (.edge source target payload) = g

namespace Consistent

variable {g : Graph N E}

/-- On either side the degrees sum up to the number of edges. -/
theorem sums (h : g.Consistent) :
    ∑ n ∈ Finset.range g.nodeCount, g.outDegree n = g.edgeCount ∧
      ∑ n ∈ Finset.range g.nodeCount, g.inDegree n = g.edgeCount := by
  have hlength : g.edges.toList.length = g.edgeCount := Array.length_toList
  simp only [h.outDegree_eq, h.inDegree_eq, ← hlength]
  exact ⟨sum_length_filter _ Link.source fun link hlink => h.source_lt link (Array.mem_def.mpr hlink),
    sum_length_filter _ Link.target fun link hlink => h.target_lt link (Array.mem_def.mpr hlink)⟩

/-- Numbers go on to stand for what they stand for. -/
theorem kept (h : g.Consistent) (more : List (Addition N E)) :
    (∀ n payload, g.node? n = some payload → (more.foldl Addition.apply g).node? n = some payload) ∧
    (∀ e payload, g.edge? e = some payload → (more.foldl Addition.apply g).edge? e = some payload) ∧
    ∀ e ends, g.endpoints? e = some ends → (more.foldl Addition.apply g).endpoints? e = some ends := by
  obtain ⟨-, hnodes, hedges⟩ := foldl_apply h more
  have hlink {e : EdgeId} {link : Link E} (he : g.edges[e]? = some link) :
      (more.foldl Addition.apply g).edges[e]? = some link := by
    rw [← Array.getElem?_toList] at he ⊢
    rw [hedges, List.getElem?_append_left (List.getElem?_eq_some_iff.mp he).1, he]
  refine ⟨fun n payload hn => ?_, fun e payload he => ?_, fun e ends he => ?_⟩
  · rw [node?, ← Array.getElem?_toList] at hn ⊢
    rw [hnodes, List.getElem?_append_left (List.getElem?_eq_some_iff.mp hn).1, hn]
  · obtain ⟨link, hfound, rfl⟩ := Option.map_eq_some_iff.mp he
    rw [edge?, hlink hfound, Option.map_some]
  · obtain ⟨link, hfound, rfl⟩ := Option.map_eq_some_iff.mp he
    rw [endpoints?, hlink hfound, Option.map_some]

end Consistent

/-- Whatever a graph was built by, refused additions included, its answers follow from its history. -/
theorem answersFromHistory (history : List (Addition N E)) :
    (ofHistory history).AnswersFromHistory history := by
  obtain ⟨hg, hnodes, hedges⟩ := ofHistory_eq history
  exact {
    contents := ⟨hnodes, hedges⟩
    outgoing := hg.outgoing_eq
    incoming := hg.incoming_eq
    successors := fun n => by rw [hg.successors_eq, targets, linksFrom, hedges]
    predecessors := fun n => by rw [hg.predecessors_eq, hedges]
    degrees := hg.degrees
    sums := hg.sums
    found := fun _ _ _ => hg.findEdge_eq_some_iff
    absent := fun _ _ => hg.findEdge_eq_none_iff
    stored := ⟨hg.leaving_size, hg.entering_size, hg.stored_lt.1, hg.stored_lt.2,
      fun link hlink => ⟨hg.source_lt link hlink, hg.target_lt link hlink⟩⟩
    kept := hg.kept
    addNode := fun payload => ⟨rfl, by simp [Graph.addNode, node?, nodeCount]⟩
    addEdge := fun source target payload hsource htarget => by
      rw [addEdge_eq, if_pos ⟨hsource, htarget⟩]
      exact ⟨_, rfl, by simp [Graph.link, edge?, edgeCount], by simp [Graph.link, endpoints?, edgeCount]⟩
    refused := fun source target payload hunknown => by
      rw [addEdge_eq, if_neg hunknown, Addition.apply_edge, if_neg hunknown]
      exact ⟨rfl, rfl⟩ }

end GuardedFlow.Graph
