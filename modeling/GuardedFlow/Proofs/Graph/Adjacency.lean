import Mathlib.Data.List.Basic
import Mathlib.Data.List.Induction
import GuardedFlow.Graph.Basic

/-!
# Adjacency lists

A graph enters every edge in the list of its source and in that of its target. `Graph.Consistent`
states that these lists hold exactly the edges of a node, in order of insertion; a graph that is built
by adding nodes and edges is consistent. Neighbours, degrees and the search for an edge are then statements
about the edges alone.
-/

namespace GuardedFlow.Graph

variable {N E : Type}

/-- The numbers of the edges for which a test succeeds, in order of insertion. -/
def idsOf (g : Graph N E) (test : Link E → Bool) : List EdgeId :=
  (List.range g.edgeCount).filter fun e => g.edges[e]?.any test

/-- The adjacency lists of every node hold the edges of that node, and edges join nodes. -/
structure Consistent (g : Graph N E) : Prop where
  leaving_size : g.leaving.size = g.nodeCount
  entering_size : g.entering.size = g.nodeCount
  leaving : ∀ n < g.nodeCount, g.leaving[n]? = some (g.idsOf (·.source == n))
  entering : ∀ n < g.nodeCount, g.entering[n]? = some (g.idsOf (·.target == n))
  source_lt : ∀ link ∈ g.edges, link.source < g.nodeCount
  target_lt : ∀ link ∈ g.edges, link.target < g.nodeCount

/-- The graph without nodes has no lists that could be wrong. -/
theorem consistent_empty : (empty : Graph N E).Consistent := by
  constructor <;> simp [empty, nodeCount]

/-- Membership in the selected edges. -/
theorem mem_idsOf {g : Graph N E} {test : Link E → Bool} {e : EdgeId} :
    e ∈ g.idsOf test ↔ ∃ link, g.edges[e]? = some link ∧ test link := by
  constructor
  · intro h
    obtain ⟨-, htest⟩ := List.mem_filter.mp h
    simpa [Option.any_eq_true] using htest
  · rintro ⟨link, hlink, htest⟩
    obtain ⟨hlt, -⟩ := Array.getElem?_eq_some_iff.mp hlink
    exact List.mem_filter.mpr ⟨List.mem_range.mpr hlt, by simp [hlink, htest]⟩

/-- Nothing is selected by a test that no edge passes. -/
theorem idsOf_eq_nil {g : Graph N E} {test : Link E → Bool} (h : ∀ link ∈ g.edges, ¬ test link) :
    g.idsOf test = [] := by
  apply List.eq_nil_iff_forall_not_mem.mpr
  intro e he
  obtain ⟨link, hlink, htest⟩ := mem_idsOf.mp he
  exact h link (Array.mem_of_getElem? hlink) htest

/-- Selecting edges depends on the edges only. -/
theorem idsOf_congr {g k : Graph N E} (h : g.edges = k.edges) (test : Link E → Bool) :
    g.idsOf test = k.idsOf test := by
  simp only [idsOf, edgeCount, h]

/-- A new edge comes last among the selected ones, if it is selected. -/
theorem idsOf_link (g : Graph N E) (source target : NodeId) (payload : E) (test : Link E → Bool) :
    (g.link source target payload).idsOf test =
      g.idsOf test ++ if test ⟨source, target, payload⟩ then [g.edgeCount] else [] := by
  have hold : (List.range g.edgeCount).filter
        (fun e => (g.edges.push ⟨source, target, payload⟩)[e]?.any test) = g.idsOf test := by
    apply List.filter_congr
    intro e he
    have hlt : e < g.edges.size := List.mem_range.mp he
    rw [Array.getElem?_push, if_neg (Nat.ne_of_lt hlt)]
  have hcount : (g.link source target payload).edgeCount = g.edgeCount + 1 :=
    Array.size_push _
  unfold idsOf at hold ⊢
  rw [hcount, List.range_succ, List.filter_append]
  change (List.range g.edgeCount).filter
    (fun e => (g.edges.push ⟨source, target, payload⟩)[e]?.any test) ++ _ = _
  rw [hold]
  congr 1
  have hnew : (g.edges.push ⟨source, target, payload⟩)[g.edgeCount]? =
      some ⟨source, target, payload⟩ := by
    simp [edgeCount]
  change List.filter (fun e => (g.edges.push ⟨source, target, payload⟩)[e]?.any test)
    [g.edgeCount] = _
  simp only [List.filter_cons, List.filter_nil, hnew, Option.any_some]

/-- The edges that leave a node, in order of insertion. -/
def linksFrom (g : Graph N E) (n : NodeId) : List (Link E) :=
  g.edges.toList.filter (·.source == n)

/-- A new edge comes last among those that leave its source. -/
theorem linksFrom_link (g : Graph N E) (source target : NodeId) (payload : E) (n : NodeId) :
    (g.link source target payload).linksFrom n =
      g.linksFrom n ++ if source = n then [⟨source, target, payload⟩] else [] := by
  have hedges : (g.link source target payload).edges.toList =
      g.edges.toList ++ [⟨source, target, payload⟩] := Array.toList_push
  unfold linksFrom
  rw [hedges, List.filter_append]
  by_cases h : source = n <;> simp [h]

/-- All edges with their numbers, looked up one after another. -/
theorem edgeList_eq (g : Graph N E) :
    g.edgeList = (List.range g.edgeCount).filterMap fun e => g.edges[e]?.map (e, ·) := by
  have h (links : List (Link E)) : links.zipIdx.map (fun entry => (entry.2, entry.1)) =
      (List.range links.length).filterMap fun e => links[e]?.map (e, ·) := by
    -- from the end, since the numbers of the edges so far stay as they are
    induction links using List.reverseRecOn with
    | nil => rfl
    | append_singleton links last ih =>
      have hold : (List.range links.length).filterMap (fun e => (links ++ [last])[e]?.map (e, ·)) =
          (List.range links.length).filterMap fun e => links[e]?.map (e, ·) := by
        apply List.filterMap_congr
        intro e he
        rw [List.getElem?_append_left (List.mem_range.mp he)]
      rw [List.zipIdx_append, List.map_append, ih, List.length_append, List.length_singleton,
        List.range_succ, List.filterMap_append, hold]
      simp
  simpa [edgeList, edgeCount] using h g.edges.toList

/-- Selected edges come with their numbers, in order of insertion. -/
theorem idsOf_numbered (g : Graph N E) (test : Link E → Bool) :
    (g.idsOf test).filterMap (fun e => g.edges[e]?.map (e, ·)) = g.edgeList.filter (test ·.2) := by
  rw [edgeList_eq, List.filter_filterMap, idsOf, List.filterMap_filter]
  apply List.filterMap_congr
  intro e he
  cases g.edges[e]? with
  | none => rfl
  | some link => by_cases htest : test link <;> simp [htest, Option.filter]

/-- The selected edges themselves. -/
theorem idsOf_links (g : Graph N E) (test : Link E → Bool) :
    ((g.idsOf test).filterMap fun e => g.edges[e]?.map (e, ·)).map (·.2) =
      g.edges.toList.filter test := by
  have hall : g.edgeList.map (·.2) = g.edges.toList := by
    rw [edgeList, List.map_map]
    exact List.zipIdx_map_fst 0 g.edges.toList
  rw [idsOf_numbered, ← hall, List.filter_map]
  rfl

/-- As many edges are selected as there are numbers of them. -/
theorem length_idsOf (g : Graph N E) (test : Link E → Bool) :
    (g.idsOf test).length = (g.edges.toList.filter test).length := by
  have hsome : ∀ e ∈ g.idsOf test, (g.edges[e]?.map (e, ·)).isSome := by
    intro e he
    obtain ⟨link, hlink, -⟩ := mem_idsOf.mp he
    simp [hlink]
  rw [← g.idsOf_links, List.length_map]
  rw [List.length_filterMap_eq_countP]
  exact (List.countP_eq_length.mpr hsome).symm

/-- If the edges that leave each node have different targets, no two edges have both ends in common. -/
theorem nodup_ends (links : List (Link E))
    (h : ∀ n, ((links.filter (·.source == n)).map Link.target).Nodup) :
    (links.map fun link => (link.source, link.target)).Nodup := by
  induction links with
  | nil => exact List.nodup_nil
  | cons first rest ih =>
    rw [List.map_cons, List.nodup_cons]
    constructor
    · intro hmem
      obtain ⟨link, hlink, hends⟩ := List.mem_map.mp hmem
      obtain ⟨hsource, htarget⟩ := Prod.mk.inj hends
      have hfirst := h first.source
      rw [List.filter_cons_of_pos (by simp), List.map_cons, List.nodup_cons] at hfirst
      apply hfirst.1
      rw [← htarget]
      exact List.mem_map_of_mem (List.mem_filter.mpr ⟨hlink, by simp [hsource]⟩)
    · apply ih
      intro n
      have hsub : (rest.filter (·.source == n)).Sublist ((first :: rest).filter (·.source == n)) :=
        (List.sublist_cons_self first rest).filter _
      exact (h n).sublist (hsub.map Link.target)

namespace Consistent

variable {g : Graph N E}

/-- A new node has no edges yet. -/
theorem addNode (h : g.Consistent) (payload : N) : (g.addNode payload).2.Consistent := by
  have hcount : (g.addNode payload).2.nodeCount = g.nodeCount + 1 := Array.size_push _
  have hids (test : Link E → Bool) : (g.addNode payload).2.idsOf test = g.idsOf test :=
    idsOf_congr rfl test
  constructor
  · rw [hcount]
    exact (Array.size_push _).trans (congrArg (· + 1) h.leaving_size)
  · rw [hcount]
    exact (Array.size_push _).trans (congrArg (· + 1) h.entering_size)
  · intro n hn
    rw [hids]
    change (g.leaving.push [])[n]? = _
    rw [Array.getElem?_push, h.leaving_size]
    split
    · rename_i heq
      rw [heq, idsOf_eq_nil]
      intro link hlink hsource
      exact Nat.ne_of_lt (h.source_lt link hlink) (eq_of_beq hsource)
    · exact h.leaving n (by omega)
  · intro n hn
    rw [hids]
    change (g.entering.push [])[n]? = _
    rw [Array.getElem?_push, h.entering_size]
    split
    · rename_i heq
      rw [heq, idsOf_eq_nil]
      intro link hlink htarget
      exact Nat.ne_of_lt (h.target_lt link hlink) (eq_of_beq htarget)
    · exact h.entering n (by omega)
  · intro link hlink
    rw [hcount]
    exact Nat.lt_succ_of_lt (h.source_lt link hlink)
  · intro link hlink
    rw [hcount]
    exact Nat.lt_succ_of_lt (h.target_lt link hlink)

/-- A new edge is entered in the lists of its end points. -/
theorem link (h : g.Consistent) {source target : NodeId} (hsource : source < g.nodeCount)
    (htarget : target < g.nodeCount) (payload : E) : (g.link source target payload).Consistent := by
  constructor
  · exact (Array.size_modify ..).trans h.leaving_size
  · exact (Array.size_modify ..).trans h.entering_size
  · intro n hn
    rw [idsOf_link]
    change (g.leaving.modify source (· ++ [g.edgeCount]))[n]? = _
    rw [Array.getElem?_modify, h.leaving n hn]
    by_cases hn : source = n <;> simp [hn]
  · intro n hn
    rw [idsOf_link]
    change (g.entering.modify target (· ++ [g.edgeCount]))[n]? = _
    rw [Array.getElem?_modify, h.entering n hn]
    by_cases hn : target = n <;> simp [hn]
  · intro link hlink
    rcases Array.mem_push.mp hlink with hold | rfl
    · exact h.source_lt link hold
    · exact hsource
  · intro link hlink
    rcases Array.mem_push.mp hlink with hold | rfl
    · exact h.target_lt link hold
    · exact htarget

/-- The list of a node holds the edges that leave it; it is empty for a node that the graph does not
have. -/
theorem leaving_eq (h : g.Consistent) (n : NodeId) :
    g.leaving[n]?.getD [] = g.idsOf (·.source == n) := by
  by_cases hn : n < g.nodeCount
  · rw [h.leaving n hn, Option.getD_some]
  · rw [Array.getElem?_eq_none (h.leaving_size ▸ Nat.le_of_not_lt hn), idsOf_eq_nil, Option.getD_none]
    intro link hlink hsource
    exact hn (eq_of_beq hsource ▸ h.source_lt link hlink)

/-- The list of a node holds the edges that enter it; it is empty for a node that the graph does not
have. -/
theorem entering_eq (h : g.Consistent) (n : NodeId) :
    g.entering[n]?.getD [] = g.idsOf (·.target == n) := by
  by_cases hn : n < g.nodeCount
  · rw [h.entering n hn, Option.getD_some]
  · rw [Array.getElem?_eq_none (h.entering_size ▸ Nat.le_of_not_lt hn), idsOf_eq_nil, Option.getD_none]
    intro link hlink htarget
    exact hn (eq_of_beq htarget ▸ h.target_lt link hlink)

/-- The edges that leave a node are found by their source. -/
theorem outgoing_eq (h : g.Consistent) (n : NodeId) :
    g.outgoing n = g.edgeList.filter (·.2.source == n) := by
  rw [outgoing, h.leaving_eq, idsOf_numbered]

/-- The edges that enter a node are found by their target. -/
theorem incoming_eq (h : g.Consistent) (n : NodeId) :
    g.incoming n = g.edgeList.filter (·.2.target == n) := by
  rw [incoming, h.entering_eq, idsOf_numbered]

/-- The out-degree counts the edges by their source. -/
theorem outDegree_eq (h : g.Consistent) (n : NodeId) :
    g.outDegree n = (g.edges.toList.filter (·.source == n)).length := by
  rw [outDegree, h.leaving_eq, length_idsOf]

/-- The in-degree counts the edges by their target. -/
theorem inDegree_eq (h : g.Consistent) (n : NodeId) :
    g.inDegree n = (g.edges.toList.filter (·.target == n)).length := by
  rw [inDegree, h.entering_eq, length_idsOf]

/-- The edges that leave a node are those whose source it is. -/
theorem mem_outgoing (h : g.Consistent) {n : NodeId} {e : EdgeId} {link : Link E} :
    (e, link) ∈ g.outgoing n ↔ g.edges[e]? = some link ∧ link.source = n := by
  rw [outgoing, h.leaving_eq, List.mem_filterMap]
  constructor
  · rintro ⟨f, hf, hlink⟩
    obtain ⟨found, hfound, hsource⟩ := mem_idsOf.mp hf
    rw [hfound, Option.map_some, Option.some.injEq, Prod.mk.injEq] at hlink
    obtain ⟨rfl, rfl⟩ := hlink
    exact ⟨hfound, eq_of_beq hsource⟩
  · rintro ⟨hlink, hsource⟩
    exact ⟨e, mem_idsOf.mpr ⟨link, hlink, beq_of_eq hsource⟩, by rw [hlink, Option.map_some]⟩

/-- The search for an edge succeeds exactly if there is one. -/
theorem findEdge_isSome_iff (h : g.Consistent) (source target : NodeId) :
    (g.findEdge source target).isSome ↔
      ∃ link ∈ g.edges, link.source = source ∧ link.target = target := by
  unfold findEdge
  rw [Option.isSome_map, List.find?_isSome]
  constructor
  · rintro ⟨⟨e, link⟩, hmem, htarget⟩
    obtain ⟨hlink, hsource⟩ := h.mem_outgoing.mp hmem
    exact ⟨link, Array.mem_of_getElem? hlink, hsource, eq_of_beq htarget⟩
  · rintro ⟨link, hlink, hsource, rfl⟩
    obtain ⟨e, he⟩ := Array.getElem?_of_mem hlink
    exact ⟨(e, link), h.mem_outgoing.mpr ⟨he, hsource⟩, by simp⟩

/-- Changing the payload of a node does not touch the lists. -/
theorem modifyNode (h : g.Consistent) (n : NodeId) (f : N → N) : (g.modifyNode n f).Consistent := by
  have hcount : (g.modifyNode n f).nodeCount = g.nodeCount := Array.size_modify ..
  constructor <;> rw [hcount]
  · exact h.leaving_size
  · exact h.entering_size
  · exact h.leaving
  · exact h.entering
  · exact h.source_lt
  · exact h.target_lt

/-- No edge leaves a node that the graph does not have. -/
theorem linksFrom_of_le (h : g.Consistent) {n : NodeId} (hn : g.nodeCount ≤ n) : g.linksFrom n = [] := by
  apply List.filter_eq_nil_iff.mpr
  intro link hlink hsource
  have hlt := h.source_lt link (Array.mem_def.mpr hlink)
  rw [eq_of_beq hsource] at hlt
  exact absurd hlt (Nat.not_lt.mpr hn)

/-- The list of a node holds the edges that leave it, in order of insertion. -/
theorem outgoing_links (h : g.Consistent) (n : NodeId) :
    (g.outgoing n).map (·.2) = g.linksFrom n := by
  rw [outgoing, h.leaving_eq]
  exact g.idsOf_links _

/-- The predecessors of a node are the sources of the edges that enter it, in order. -/
theorem predecessors_eq (h : g.Consistent) (n : NodeId) :
    g.predecessors n = (g.edges.toList.filter (·.target == n)).map Link.source := by
  rw [← idsOf_links, ← h.entering_eq, List.map_map]
  rfl

/-- The degrees of a node count the edges that are listed for it. -/
theorem degrees (h : g.Consistent) (n : NodeId) :
    g.outDegree n = (g.outgoing n).length ∧ g.inDegree n = (g.incoming n).length := by
  constructor
  · rw [h.outDegree_eq, ← idsOf_links, ← h.leaving_eq, List.length_map]
    rfl
  · rw [h.inDegree_eq, ← idsOf_links, ← h.entering_eq, List.length_map]
    rfl

/-- The nodes from which an edge leads to a node. -/
theorem mem_predecessors (h : g.Consistent) {n source : NodeId} :
    source ∈ g.predecessors n ↔ ∃ link ∈ g.edges, link.source = source ∧ link.target = n := by
  rw [h.predecessors_eq, List.mem_map]
  constructor
  · rintro ⟨link, hlink, rfl⟩
    obtain ⟨hmem, htarget⟩ := List.mem_filter.mp hlink
    exact ⟨link, Array.mem_def.mpr hmem, rfl, eq_of_beq htarget⟩
  · rintro ⟨link, hlink, rfl, rfl⟩
    exact ⟨link, List.mem_filter.mpr ⟨Array.mem_def.mp hlink, by simp⟩, rfl⟩

end Consistent

end GuardedFlow.Graph
