import Mathlib.Data.List.Dedup
import Mathlib.Data.List.Permutation
import GuardedFlow.Proofs.Graph.Paths
import GuardedFlow.Proofs.Graph.Traversal

/-!
# What the walks visit

The forward and the backward walk mark a node when it is put on the stack. `Walk.discover_eq` says what one
step puts there, `Walk.mem_preorder` and `Walk.nodup_preorder` follow from it by induction on the loop: a
walk visits the nodes to which a path through unmarked nodes leads from the stack, each once. For a graph
this means that forwards all nodes are found to which a path leads from the start, and backwards all from
which a path leads to the target.
-/

namespace GuardedFlow

namespace Walk

variable {next : NodeId → List NodeId} {marks : Marks} {n : NodeId} {nodes stack : List NodeId}

/-- The free ones among `nodes`, each at its last place. -/
def claims (nodes : List NodeId) (marks : Marks) : List NodeId := (nodes.filter marks.free).dedup

/-- Claimed are the free ones among the given nodes. -/
theorem mem_claims : n ∈ claims nodes marks ↔ n ∈ nodes ∧ marks.free n := by
  rw [claims, List.mem_dedup, List.mem_filter]

/-- A node is claimed once. -/
theorem nodup_claims : (claims nodes marks).Nodup := List.nodup_dedup _

/-- A node is claimed where it comes last. -/
theorem claims_cons (n : NodeId) (rest : List NodeId) (marks : Marks) : claims (n :: rest) marks =
    if (marks.markAll (claims rest marks)).free n then n :: claims rest marks else claims rest marks := by
  by_cases hfree : marks.free n
  · have hfilter : (n :: rest).filter marks.free = n :: rest.filter marks.free :=
      List.filter_cons_of_pos hfree
    by_cases hmem : n ∈ claims rest marks
    · rw [if_neg fun h => (Marks.free_markAll.mp h).2 hmem, claims, hfilter,
        List.dedup_cons_of_mem (List.mem_dedup.mp hmem)]
      rfl
    · rw [if_pos (Marks.free_markAll.mpr ⟨hfree, hmem⟩), claims, hfilter,
        List.dedup_cons_of_notMem fun h => hmem (List.mem_dedup.mpr h)]
      rfl
  · rw [if_neg fun h => hfree (Marks.free_markAll.mp h).1, claims, List.filter_cons_of_neg hfree]
    rfl

/-- One step marks the free ones among the nodes and puts them on the stack. -/
theorem discover_eq (nodes : List NodeId) (marks : Marks) (stack : List NodeId) :
    discover nodes marks stack = (marks.markAll (claims nodes marks), claims nodes marks ++ stack) := by
  induction nodes with
  | nil => rfl
  | cons n rest ih =>
    change (if (discover rest marks stack).1.free n then
      ((discover rest marks stack).1.mark n, n :: (discover rest marks stack).2)
      else discover rest marks stack) = _
    rw [ih, claims_cons]
    split <;> rfl

/-- The loop visits the nodes to which a path through unmarked nodes leads from the stack. -/
theorem mem_preorder : n ∈ preorder next marks stack ↔ ∃ s ∈ stack, Trail next marks s n := by
  fun_induction preorder next marks stack generalizing n with
  | case1 => simp
  | case2 =>
    rename_i marks x stack found ih
    obtain ⟨hmarks, hstack⟩ := Prod.ext_iff.mp (discover_eq (next x) marks stack)
    have hfree {m : NodeId} : found.1.free m ↔ marks.free m ∧ m ∉ claims (next x) marks := by
      rw [hmarks, Marks.free_markAll]
    rw [List.mem_cons, ih]
    constructor
    · rintro (rfl | ⟨s, hs, hpath⟩)
      · exact ⟨n, List.mem_cons_self, .refl⟩
      · have hpath := Trail.mono (fun m hm => (hfree.mp hm).1) hpath
        rw [hstack] at hs
        rcases List.mem_append.mp hs with hs | hs
        · exact ⟨x, List.mem_cons_self, .head (mem_claims.mp hs) hpath⟩
        · exact ⟨s, List.mem_cons_of_mem _ hs, hpath⟩
    · rintro ⟨s, hs, hpath⟩
      -- along the path no step leaves the nodes that are visited
      induction hpath with
      | refl =>
        refine (List.mem_cons.mp hs).imp_right fun hs => ⟨s, ?_, .refl⟩
        rw [hstack]
        exact List.mem_append_right _ hs
      | @tail a b _ hstep hvisited =>
        right
        by_cases hown : b ∈ claims (next x) marks
        · refine ⟨b, ?_, .refl⟩
          rw [hstack]
          exact List.mem_append_left _ hown
        · rcases hvisited with rfl | ⟨r, hr, hpath⟩
          · exact absurd (mem_claims.mpr hstep) hown
          · exact ⟨r, hr, hpath.tail ⟨hstep.1, hfree.mpr ⟨hstep.2, hown⟩⟩⟩

/-- The loop visits no node twice if the nodes on the stack are different and marked. -/
theorem nodup_preorder (hstack : stack.Nodup) (hmarked : ∀ s ∈ stack, ¬ marks.free s) :
    (preorder next marks stack).Nodup := by
  fun_induction preorder next marks stack with
  | case1 => exact List.nodup_nil
  | case2 =>
    rename_i marks x stack found ih
    obtain ⟨hx, hstack⟩ := List.nodup_cons.mp hstack
    obtain ⟨hmarks, hfound⟩ := Prod.ext_iff.mp (discover_eq (next x) marks stack)
    have hfree {m : NodeId} : found.1.free m ↔ marks.free m ∧ m ∉ claims (next x) marks := by
      rw [hmarks, Marks.free_markAll]
    have hmarked' : ∀ s ∈ found.2, ¬ found.1.free s := by
      intro s hs hsfree
      rw [hfound] at hs
      obtain ⟨hsfree, hown⟩ := hfree.mp hsfree
      exact hmarked s (List.mem_cons_of_mem _ ((List.mem_append.mp hs).resolve_left hown)) hsfree
    refine List.nodup_cons.mpr ⟨fun hmem => ?_, ih ?_ hmarked'⟩
    · obtain ⟨s, hs, hpath⟩ := mem_preorder.mp hmem
      have hxfree := hmarked x List.mem_cons_self
      cases hpath with
      | refl =>
        rw [hfound] at hs
        rcases List.mem_append.mp hs with hs | hs
        · exact hxfree (mem_claims.mp hs).2
        · exact hx hs
      | tail _ hstep => exact hxfree (hfree.mp hstep.2).1
    · rw [hfound]
      refine List.nodup_append.mpr ⟨nodup_claims, hstack, ?_⟩
      rintro s hs _ hs' rfl
      exact hmarked s (List.mem_cons_of_mem _ hs') (mem_claims.mp hs).2

end Walk

namespace Graph

open Walk

variable {N E : Type} {g : Graph N E} {next : NodeId → List NodeId} {start n : NodeId}

/-- A walk from a node of the graph visits all that `next` leads to. -/
theorem mem_walk (hnext : ∀ a, ∀ b ∈ next a, b < g.nodeCount) (hstart : start < g.nodeCount) :
    n ∈ g.walk next start ↔ Relation.ReflTransGen (fun a b => b ∈ next a) start n := by
  have hfree {m : NodeId} : ((Marks.none g.nodeCount).mark start).free m ↔ m < g.nodeCount ∧ m ≠ start := by
    rw [Marks.free_mark_iff, Marks.free_none, decide_eq_true_iff]
  rw [walk, if_pos (by simpa [hasNode] using hstart), mem_preorder]
  constructor
  · rintro ⟨s, hs, hpath⟩
    rw [List.mem_singleton.mp hs] at hpath
    exact Relation.ReflTransGen.mono (fun _ _ hstep => hstep.1) _ _ hpath
  · intro hpath
    refine ⟨start, List.mem_singleton_self _, ?_⟩
    -- a step back to the start begins the path anew
    induction hpath with
    | refl => exact .refl
    | @tail a b _ hb ih =>
      by_cases hback : b = start
      · exact hback ▸ .refl
      · exact ih.tail ⟨hb, hfree.mpr ⟨hnext a b hb, hback⟩⟩

/-- A walk visits no node twice. -/
theorem nodup_walk : (g.walk next start).Nodup := by
  unfold walk
  split
  · refine nodup_preorder (List.nodup_singleton _) fun s hs hfree => ?_
    exact (Marks.free_mark_iff.mp hfree).2 (List.mem_singleton.mp hs)
  · exact List.nodup_nil

/-- A walk from an unknown node visits nothing. -/
theorem walk_unknown (hstart : g.nodeCount ≤ start) : g.walk next start = [] := by
  rw [walk, if_neg (by simpa [hasNode] using hstart)]

/-- What the two queries answer: forwards from a node and backwards to a node. -/
structure AnswersReachability (g : Graph N E) : Prop where
  /-- Forwards, the nodes are visited to which a path leads from the start. -/
  reachable : ∀ start n, n ∈ g.reachable start ↔ start < g.nodeCount ∧ g.Path start n
  /-- Backwards, the nodes are visited from which a path leads to the target. -/
  reaching : ∀ target n, n ∈ g.reaching target ↔ target < g.nodeCount ∧ g.Path n target
  /-- No node is visited twice. -/
  nodup : ∀ n, (g.reachable n).Nodup ∧ (g.reaching n).Nodup
  /-- Each turn of a loop visits one node, so a loop ends after at most as many turns as there are nodes. -/
  turns : ∀ n, (g.reachable n).length ≤ g.nodeCount ∧ (g.reaching n).length ≤ g.nodeCount
  /-- Nothing is found for a node that the graph does not have. -/
  unknown : ∀ n, g.nodeCount ≤ n → g.reachable n = [] ∧ g.reaching n = []

/-- A list of different nodes of a graph is no longer than the graph has nodes. -/
theorem length_le_nodeCount {nodes : List NodeId} (hnodup : nodes.Nodup)
    (h : ∀ n ∈ nodes, n < g.nodeCount) : nodes.length ≤ g.nodeCount := by
  have hsub := List.subperm_of_subset hnodup fun n hn => List.mem_range.mpr (h n hn)
  simpa using hsub.length_le

namespace Consistent

/-- Reachable are the nodes that a path from the start leads to. -/
theorem mem_reachable (hg : g.Consistent) :
    n ∈ g.reachable start ↔ start < g.nodeCount ∧ g.Path start n := by
  by_cases hstart : start < g.nodeCount
  · have hedge : (fun a b => b ∈ g.successors a) = g.Edge := by
      funext a b
      exact propext hg.mem_successors
    rw [reachable, mem_walk (fun a b hb => (hg.edge_lt (hg.mem_successors.mp hb)).2) hstart, hedge]
    exact (and_iff_right hstart).symm
  · simp [reachable, walk_unknown (Nat.le_of_not_lt hstart), hstart]

/-- Reaching are the nodes that a path to the start begins with. -/
theorem mem_reaching (hg : g.Consistent) :
    n ∈ g.reaching start ↔ start < g.nodeCount ∧ g.Path n start := by
  by_cases hstart : start < g.nodeCount
  · have hmem {a b : NodeId} : b ∈ (g.predecessors a).reverse ↔ g.Edge b a := by
      rw [List.mem_reverse, hg.mem_predecessors_iff]
    have hedge : (fun a b => b ∈ (g.predecessors a).reverse) = Function.swap g.Edge := by
      funext a b
      exact propext hmem
    rw [reaching, mem_walk (fun a b hb => (hg.edge_lt (hmem.mp hb)).1) hstart, hedge,
      Relation.reflTransGen_swap]
    exact (and_iff_right hstart).symm
  · simp [reaching, walk_unknown (Nat.le_of_not_lt hstart), hstart]

/-- The recursion lists the nodes to which a path leads. -/
theorem mem_recursive (hg : g.Consistent) (order : Listing) :
    n ∈ Walk.traverse order g.targets (Marks.none g.nodeCount) [start] ↔
      start < g.nodeCount ∧ g.Path start n := by
  have hstep : Step g.targets (Marks.none g.nodeCount) = g.Edge := by
    funext a b
    rw [Step, mem_targets, Marks.free_none, decide_eq_true_iff]
    exact propext (and_iff_left_of_imp fun hedge => (hg.edge_lt hedge).2)
  rw [mem_traverse, Trail, hstep]
  simp [Path]

/-- Both walks are exact. -/
theorem answersReachability (hg : g.Consistent) : g.AnswersReachability where
  reachable _ _ := hg.mem_reachable
  reaching _ _ := hg.mem_reaching
  nodup _ := ⟨nodup_walk, nodup_walk⟩
  turns n := by
    refine ⟨length_le_nodeCount nodup_walk fun m hm => ?_, length_le_nodeCount nodup_walk fun m hm => ?_⟩
    · obtain ⟨hn, hpath⟩ := hg.mem_reachable.mp hm
      exact (hg.path_lt_iff hpath).mp hn
    · obtain ⟨hn, hpath⟩ := hg.mem_reaching.mp hm
      exact (hg.path_lt_iff hpath).mpr hn
  unknown _ hn := ⟨walk_unknown hn, walk_unknown hn⟩

end Consistent

end Graph

end GuardedFlow
