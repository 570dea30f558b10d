import GuardedFlow.Proofs.Graph.Reachability

/-!
# The reverse postorder

The loop for the postorder works off a stack on which a node may be put many times; the node counts only
when it is taken off unmarked. `Walk.postorder_eq_traverse` ties the pending tasks to the recursion: the
nodes that wait on top of the stack are traversed, and the rest of the stack goes on with their marks. In
postorder the target of an edge comes before its source, unless a path leads back from it
(`Walk.sublist_traverse`). Reversed, this is an order for forward analyses: `Graph.ForwardOrder`.
-/

namespace GuardedFlow

namespace Walk

variable {next : NodeId → List NodeId} {marks : Marks} {nodes : List NodeId}

/-- The marks that a traversal leaves behind. -/
theorem markAll_place (order : Listing) (marks : Marks) (n : NodeId) (below after : List NodeId) :
    marks.markAll (order.place n below ++ after) = ((marks.mark n).markAll below).markAll after := by
  refine Marks.eq_of_free ?_ fun m => ?_
  · rw [Marks.size_markAll, Marks.size_markAll, Marks.size_markAll]
    exact Array.size_setIfInBounds.symm
  · rw [Marks.free_markAll, Marks.free_markAll, Marks.free_markAll, Marks.free_mark_iff, List.mem_append,
      order.mem_place]
    grind

/-- Nodes that wait on the stack are traversed before the loop goes on with the rest. Of the nodes only those
wait that pass a test, and the others have their marks. -/
theorem postorder_eq_traverse (keep : NodeId → Bool) (hkeep : ∀ n ∈ nodes, marks.free n → keep n)
    (stack : List Task) :
    postorder next marks ((nodes.filter keep).map .enter ++ stack) =
      traverse .post next marks nodes ++
        postorder next (marks.markAll (traverse .post next marks nodes)) stack := by
  fun_induction traverse .post next marks nodes generalizing keep stack with
  | case1 => rfl
  | case2 =>
    rename_i marks n rest hn below ihbelow ihrest
    rw [List.filter_cons_of_pos (hkeep n List.mem_cons_self hn), List.map_cons, List.cons_append, postorder,
      if_pos hn, ihbelow _ fun _ _ hfree => hfree, postorder, ihrest keep, markAll_place]
    · simp [Listing.post, below]
    · intro m hm hfree
      exact hkeep m (List.mem_cons_of_mem _ hm) (Marks.free_mark_iff.mp (Marks.free_markAll.mp hfree).1).1
  | case3 marks n rest hn ih =>
    have hrest := ih keep fun m hm => hkeep m (List.mem_cons_of_mem _ hm)
    by_cases hwaits : keep n
    · rw [List.filter_cons_of_pos hwaits, List.map_cons, List.cons_append, postorder, if_neg hn, hrest]
    · rw [List.filter_cons_of_neg hwaits, hrest]

/-- Where an edge leads to an unmarked node from which no path leads back, the target comes before the
source. -/
theorem sublist_traverse {u v : NodeId} (hu : u ∈ traverse .post next marks nodes) (hedge : v ∈ next u)
    (hv : marks.free v) (hback : ¬ Relation.ReflTransGen (fun a b => b ∈ next a) v u) :
    [v, u].Sublist (traverse .post next marks nodes) := by
  fun_induction traverse .post next marks nodes with
  | case1 => cases hu
  | case2 =>
    rename_i marks n rest hn below ihbelow ihrest
    have hne : v ≠ n ∨ u ∉ below := by
      refine or_iff_not_imp_right.mpr fun hbelow heq => hback ?_
      obtain ⟨r, hr, -, hpath⟩ := mem_traverse.mp (not_not.mp hbelow)
      exact heq ▸ .head hr (Relation.ReflTransGen.mono (fun _ _ hstep => hstep.1) _ _ hpath)
    have hself : v ∈ next n → v ≠ n → v ∈ below := fun hmem hvn =>
      mem_traverse.mpr ⟨v, hmem, Marks.free_mark_iff.mpr ⟨hv, hvn⟩, .refl⟩
    rcases List.mem_append.mp hu with hplaced | hlater
    · refine List.Sublist.trans ?_ (List.sublist_append_left _ _)
      by_cases hbelow : u ∈ below
      · have hvn := hne.resolve_right (not_not.mpr hbelow)
        exact (ihbelow hbelow (Marks.free_mark_iff.mpr ⟨hv, hvn⟩)).trans (List.sublist_append_left _ _)
      · obtain rfl := (Listing.post.mem_place.mp hplaced).resolve_right hbelow
        have hvn : v ≠ u := fun heq => hback (heq ▸ .refl)
        exact (List.singleton_sublist.mpr (hself hedge hvn)).append (List.Sublist.refl [u])
    · by_cases hwaits : ((marks.mark n).markAll below).free v
      · exact (ihrest hlater hwaits).trans (List.sublist_append_right _ _)
      · have hplaced := (mem_place_or_free .post hv).resolve_right hwaits
        exact (List.singleton_sublist.mpr hplaced).append (List.singleton_sublist.mpr hlater)
  | case3 _ _ _ _ ih => exact ih hu hv

end Walk

namespace Graph

open Walk

variable {N E : Type} {g : Graph N E} {start : NodeId}

/-- The depth-first postorder by recursion, in which the successors of a node are visited in the order in
which its edges were inserted. -/
def recursivePostorder (g : Graph N E) (start : NodeId) : List NodeId :=
  Walk.traverse .post g.targets (Marks.none g.nodeCount) [start]

/-- What the reverse postorder from a node is worth to a forward analysis. -/
structure ForwardOrder (g : Graph N E) (start : NodeId) : Prop where
  /-- The postorder is that of the recursion. -/
  recursive : g.postorder start = g.recursivePostorder start
  /-- No node is listed twice. -/
  nodup : (g.reversePostorder start).Nodup
  /-- The nodes are listed to which a path leads from the start, if this is a node of the graph. -/
  mem : ∀ n, n ∈ g.reversePostorder start ↔ start < g.nodeCount ∧ g.Path start n
  /-- The start comes first. -/
  head : start < g.nodeCount → (g.reversePostorder start).head? = some start
  /-- The source of an edge comes before its target, unless a path leads back from there. -/
  forward : ∀ u v, g.Path start u → g.Edge u v → ¬ g.Path v u → [u, v].Sublist (g.reversePostorder start)
  /-- Nothing is listed from a node that the graph does not have. -/
  unknown : g.nodeCount ≤ start → g.reversePostorder start = []

namespace Consistent

/-- The loop computes the postorder of the recursion. -/
theorem postorder_eq (hg : g.Consistent) (start : NodeId) :
    g.postorder start = g.recursivePostorder start := by
  rw [postorder, recursivePostorder]
  by_cases hstart : g.hasNode start
  · have hloop : Walk.postorder g.targets (Marks.none g.nodeCount)
        (([start].filter fun _ => true).map .enter ++ []) = _ :=
      postorder_eq_traverse (fun _ => true) (fun _ _ _ => rfl) []
    rw [if_pos hstart, hg.successors_eq]
    simpa [Walk.postorder] using hloop
  · have hunknown : ¬ (Marks.none g.nodeCount).free start := by simpa [hasNode] using hstart
    rw [if_neg hstart, Walk.traverse, if_neg hunknown, Walk.traverse]

/-- The postorder ends with the start. -/
theorem postorder_getLast? (hg : g.Consistent) (hstart : start < g.nodeCount) :
    (g.postorder start).getLast? = some start := by
  have hfree : (Marks.none g.nodeCount).free start := by simpa using hstart
  simp [hg.postorder_eq, recursivePostorder, Walk.traverse, hfree, Listing.post]

/-- In postorder the target of an edge comes before its source, unless a path leads back. -/
theorem postorder_sublist (hg : g.Consistent) {u v : NodeId} (hu : g.Path start u) (hedge : g.Edge u v)
    (hback : ¬ g.Path v u) : [v, u].Sublist (g.postorder start) := by
  obtain ⟨hsource, htarget⟩ := hg.edge_lt hedge
  have hlisted := (hg.mem_recursive .post).mpr ⟨(hg.path_lt_iff hu).mpr hsource, hu⟩
  rw [hg.postorder_eq]
  refine sublist_traverse hlisted (mem_targets.mpr hedge) (by simpa using htarget) fun hpath => hback ?_
  exact Relation.ReflTransGen.mono (fun _ _ => mem_targets.mp) _ _ hpath

end Consistent

/-- The reverse postorder is an order for forward analyses, whatever the graph and the start. -/
theorem Built.forwardOrder (hg : g.Built) (start : NodeId) : g.ForwardOrder start where
  recursive := hg.consistent.postorder_eq start
  nodup := by
    rw [reversePostorder, List.nodup_reverse, hg.consistent.postorder_eq]
    exact nodup_traverse
  mem n := by
    rw [reversePostorder, List.mem_reverse, hg.consistent.postorder_eq]
    exact hg.consistent.mem_recursive .post
  head hstart := by rw [reversePostorder, List.head?_reverse, hg.consistent.postorder_getLast? hstart]
  forward _ _ hu hedge hback := (hg.consistent.postorder_sublist hu hedge hback).reverse
  unknown hstart := by
    rw [reversePostorder, postorder, if_neg (by simpa [hasNode] using hstart), List.reverse_nil]

/-- A loop between two nodes that is entered from the first one and left by two parallel edges, to a node
with an edge to itself; the last node stands apart. -/
def loopExample : Graph Unit Unit :=
  assemble (List.replicate 5 ())
    [⟨0, 1, ()⟩, ⟨1, 2, ()⟩, ⟨2, 1, ()⟩, ⟨1, 3, ()⟩, ⟨1, 3, ()⟩, ⟨3, 3, ()⟩]

/-- The exit of the loop is listed before its body, which no path leads to from there. -/
theorem forwardOrder_loop : loopExample.Built ∧ loopExample.ForwardOrder 0 ∧
    loopExample.reversePostorder 0 = [0, 1, 3, 2] := by
  have hbuilt : loopExample.Built := (built_assemble (by decide)).1
  exact ⟨hbuilt, hbuilt.forwardOrder 0, by cbv⟩

end Graph

end GuardedFlow
