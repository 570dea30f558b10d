import GuardedFlow.Proofs.Graph.Reachability

/-!
# The order of the forward walk

The forward walk marks a node when it is put on the stack, and so for the first visited node that has an
edge to it. Its order is that of `Walk.claiming`: a node lays claim to its unmarked successors as soon as it
is visited, and they are out of reach for all that is found below the earlier ones. This is no depth-first
pre-order in general. `Walk.Harmless.traverse_eq` shows that it is one if no successor of a node can be
reached from an earlier one without passing through the node.
-/

namespace GuardedFlow

namespace Walk

variable {next : NodeId → List NodeId} {marks : Marks} {n : NodeId} {nodes : List NodeId}

/-- Every claim takes a free node. -/
theorem room_claims (nodes : List NodeId) (marks : Marks) :
    (marks.markAll (claims nodes marks)).room + (claims nodes marks).length = marks.room := by
  have hroom := room_discover nodes marks []
  rw [discover_eq, List.append_nil] at hroom
  exact hroom

/-- Visit the nodes of a list one after another, each with all that is reached from it through unmarked
nodes. A node that is visited marks its unmarked successors for itself. -/
def claiming (next : NodeId → List NodeId) (marks : Marks) : List NodeId → List NodeId
  | [] => []
  | n :: rest =>
    let own := claims (next n) marks
    let below := claiming next (marks.markAll own) own
    n :: below ++ claiming next ((marks.markAll own).markAll below) rest
termination_by nodes => marks.room + nodes.length
decreasing_by
  · have := room_claims (next n) marks
    simp only [List.length_cons]
    omega
  · have := room_claims (next n) marks
    refine Nat.lt_of_le_of_lt (Nat.add_le_add_right (Marks.room_markAll_le _ _) _) ?_
    simp only [List.length_cons]
    omega

/-- The nodes that a list claims include the list. -/
theorem subset_claiming : nodes ⊆ claiming next marks nodes := by
  fun_induction claiming next marks nodes with
  | case1 => exact List.Subset.refl _
  | case2 =>
    rename_i marks n rest own below _ _ ihrest
    exact List.cons_subset_cons n (List.Subset.trans ihrest (List.subset_append_right _ _))

/-- Nodes that lie marked on top of the stack are visited, and then the walk goes on with the rest. -/
theorem preorder_append (hmarked : ∀ n ∈ nodes, ¬ marks.free n) (stack : List NodeId) :
    preorder next marks (nodes ++ stack) = claiming next marks nodes ++
      preorder next (marks.markAll (claiming next marks nodes)) stack := by
  fun_induction claiming next marks nodes generalizing stack with
  | case1 => rfl
  | case2 =>
    rename_i marks n rest own below ihbelow _ ihrest
    have hown : ∀ m ∈ own, ¬ (marks.markAll own).free m := fun m hm hfree =>
      (Marks.free_markAll.mp hfree).2 hm
    have hrest : ∀ m ∈ rest, ¬ ((marks.markAll own).markAll below).free m := fun m hm hfree =>
      hmarked m (List.mem_cons_of_mem _ hm) (Marks.free_markAll.mp (Marks.free_markAll.mp hfree).1).1
    have hafter : ((marks.markAll own).markAll below).markAll
        (claiming next ((marks.markAll own).markAll below) rest) =
        marks.markAll (n :: below ++ claiming next ((marks.markAll own).markAll below) rest) := by
      refine Marks.eq_of_free (by simp only [Marks.size_markAll]) fun m => ?_
      have hn : marks.free m → m ≠ n := fun hfree heq => hmarked n List.mem_cons_self (heq ▸ hfree)
      have hbelow : m ∈ own → m ∈ below := fun hm => subset_claiming hm
      simp only [Marks.free_markAll, List.cons_append, List.mem_cons, List.mem_append]
      grind
    rw [List.cons_append, preorder, discover_eq]
    dsimp only
    rw [ihbelow hown, ihrest hrest, hafter, List.cons_append, List.cons_append, List.append_assoc]

/-- No successor of a node can be reached from one that comes before it, except through the node. -/
def Separates (next : NodeId → List NodeId) (n : NodeId) : Prop :=
  (next n).Pairwise fun a b => ¬ Relation.ReflTransGen (fun x y => y ∈ next x ∧ x ≠ n ∧ y ≠ n) a b

/-- A path through unmarked nodes keeps away from a marked one. -/
theorem Trail.around {a b : NodeId} (hn : ¬ marks.free n) (ha : marks.free a) (hpath : Trail next marks a b) :
    Relation.ReflTransGen (fun x y => y ∈ next x ∧ x ≠ n ∧ y ≠ n) a b ∧ marks.free b := by
  induction hpath with
  | refl => exact ⟨.refl, ha⟩
  | tail _ hstep ih =>
    obtain ⟨hpath, hfree⟩ := ih
    exact ⟨hpath.tail ⟨hstep.1, fun heq => hn (heq ▸ hfree), fun heq => hn (heq ▸ hstep.2)⟩, hstep.2⟩

/-- What a successor leads to is led to by the node. -/
theorem Trail.of_successor {a b : NodeId} (ha : a ∈ next n) (hfree : (marks.mark n).free a)
    (hpath : Trail next (marks.mark n) a b) : Trail next marks n b :=
  .head ⟨ha, (Marks.free_mark_iff.mp hfree).1⟩ (hpath.mono fun _ hm => (Marks.free_mark_iff.mp hm).1)

/-- Claims that are in nobody's way. All nodes of a list are claimed, and otherwise claims and marks agree on
what the recursion finds from them; none of the nodes is found from one that comes before it. -/
structure Harmless (next : NodeId → List NodeId) (marked claimed : Marks) (nodes : List NodeId) : Prop where
  apart : nodes.Pairwise fun a b => marked.free a → marked.free b → ¬ Trail next marked a b
  separates : ∀ r ∈ nodes, marked.free r → ∀ n, Trail next marked r n → Separates next n
  marked_free : ∀ n, claimed.free n → marked.free n
  free_iff : ∀ r ∈ nodes, marked.free r → ∀ n, Trail next marked r n →
    (claimed.free n ↔ marked.free n ∧ n ∉ nodes)

namespace Harmless

variable {marked claimed : Marks} {m : NodeId} {rest below : List NodeId}

/-- A node that has its mark already is passed over. -/
theorem skip (h : Harmless next marked claimed (n :: rest)) (hn : ¬ marked.free n) :
    Harmless next marked claimed rest where
  apart := (List.pairwise_cons.mp h.apart).2
  separates r hr := h.separates r (List.mem_cons_of_mem _ hr)
  marked_free := h.marked_free
  free_iff r hr hfree m hpath := by
    rw [h.free_iff r (List.mem_cons_of_mem _ hr) hfree m hpath, List.mem_cons, not_or]
    exact ⟨fun ⟨hm, _, hrest⟩ => ⟨hm, hrest⟩, fun ⟨hm, hrest⟩ => ⟨hm, fun heq => hn (heq ▸ hm), hrest⟩⟩

/-- No later node of the list is found from the first. -/
theorem not_mem_rest (h : Harmless next marked claimed (n :: rest)) (hn : marked.free n)
    (hpath : Trail next marked n m) (hm : marked.free m) : m ∉ rest := fun hrest =>
  (List.pairwise_cons.mp h.apart).1 m hrest hn hm hpath

/-- What is found from the first node is claimed only if it has its mark by then. -/
theorem free_iff_mark (h : Harmless next marked claimed (n :: rest)) (hn : marked.free n)
    (hpath : Trail next marked n m) : claimed.free m ↔ (marked.mark n).free m := by
  rw [h.free_iff n List.mem_cons_self hn m hpath, Marks.free_mark_iff, List.mem_cons, not_or]
  exact and_congr_right fun hm => and_iff_left (h.not_mem_rest hn hpath hm)

/-- The first node is claimed. -/
theorem ne_of_free (h : Harmless next marked claimed (n :: rest)) (hn : marked.free n)
    (hm : claimed.free m) : m ≠ n := fun heq =>
  marked.not_free_mark n ((h.free_iff_mark hn .refl).mp (heq ▸ hm))

/-- The first node claims those of its successors that the recursion finds unmarked. -/
theorem claims_eq (h : Harmless next marked claimed (n :: rest)) (hn : marked.free n) :
    claims (next n) claimed = (next n).filter (marked.mark n).free := by
  have hnodup : (next n).Nodup := by
    refine List.Pairwise.imp ?_ (h.separates n List.mem_cons_self hn n .refl)
    rintro a _ hpath rfl
    exact hpath .refl
  rw [claims, (hnodup.filter _).dedup]
  refine List.filter_congr fun m hm => Bool.eq_iff_iff.mpr ⟨fun hfree => ?_, fun hfree => ?_⟩
  · exact (h.free_iff_mark hn (.single ⟨hm, h.marked_free m hfree⟩)).mp hfree
  · exact (h.free_iff_mark hn (.single ⟨hm, (Marks.free_mark_iff.mp hfree).1⟩)).mpr hfree

/-- The claims of the first node are in nobody's way below it. -/
theorem successors (h : Harmless next marked claimed (n :: rest)) (hn : marked.free n) :
    Harmless next (marked.mark n) (claimed.markAll (claims (next n) claimed)) (next n) where
  apart :=
    (h.separates n List.mem_cons_self hn n .refl).imp fun hpath hfree _ htrail =>
      hpath (htrail.around (marked.not_free_mark n) hfree).1
  separates r hr hfree m hpath := h.separates n List.mem_cons_self hn m (hpath.of_successor hr hfree)
  marked_free m hfree := by
    have hm := (Marks.free_markAll.mp hfree).1
    exact Marks.free_mark_iff.mpr ⟨h.marked_free m hm, h.ne_of_free hn hm⟩
  free_iff r hr hfree m hpath := by
    rw [Marks.free_markAll, h.claims_eq hn, List.mem_filter, h.free_iff_mark hn (hpath.of_successor hr hfree)]
    grind

/-- After the first node the claims are in nobody's way, once all that is found from it is marked. -/
theorem after (h : Harmless next marked claimed (n :: rest)) (hn : marked.free n)
    (hbelow : claims (next n) claimed ⊆ below) :
    Harmless next ((marked.mark n).markAll below)
      ((claimed.markAll (claims (next n) claimed)).markAll below) rest := by
  have hfree (m : NodeId) (hm : ((marked.mark n).markAll below).free m) : marked.free m :=
    (Marks.free_mark_iff.mp (Marks.free_markAll.mp hm).1).1
  refine ⟨?_, ?_, ?_, ?_⟩
  · exact (List.pairwise_cons.mp h.apart).2.imp fun hpath ha hb htrail =>
      hpath (hfree _ ha) (hfree _ hb) (htrail.mono hfree)
  · intro r hr hrfree m hpath
    exact h.separates r (List.mem_cons_of_mem _ hr) (hfree r hrfree) m (hpath.mono hfree)
  · intro m hm
    obtain ⟨hm, hnot⟩ := Marks.free_markAll.mp hm
    have hm := (Marks.free_markAll.mp hm).1
    exact Marks.free_markAll.mpr ⟨Marks.free_mark_iff.mpr ⟨h.marked_free m hm, h.ne_of_free hn hm⟩, hnot⟩
  · intro r hr hrfree m hpath
    have hclaimed := h.free_iff r (List.mem_cons_of_mem _ hr) (hfree r hrfree) m (hpath.mono hfree)
    rw [List.mem_cons, not_or] at hclaimed
    have hown : m ∈ claims (next n) claimed → m ∈ below := fun hm => hbelow hm
    rw [Marks.free_markAll, Marks.free_markAll, Marks.free_markAll, Marks.free_mark_iff, hclaimed]
    grind

end Harmless

/-- Where the claims are in nobody's way, nodes are visited in the order of the recursion. -/
theorem Harmless.traverse_eq {marked claimed : Marks} (h : Harmless next marked claimed nodes) :
    traverse .pre next marked nodes = claiming next claimed (nodes.filter marked.free) := by
  fun_induction traverse .pre next marked nodes generalizing claimed with
  | case1 => rw [List.filter_nil, claiming]
  | case2 =>
    rename_i marked n rest hn below ihbelow ihrest
    have htraversed : below = claiming next (claimed.markAll (claims (next n) claimed))
        (claims (next n) claimed) := by
      refine (ihbelow (h.successors hn)).trans ?_
      rw [h.claims_eq hn]
    have hafter := h.after hn (htraversed ▸ subset_claiming)
    have hfound (m : NodeId) (hm : m ∈ below) : Trail next marked n m := by
      obtain ⟨r, hr, hfree, hpath⟩ := mem_traverse.mp hm
      exact hpath.of_successor hr hfree
    have hrest : rest.filter ((marked.mark n).markAll below).free = rest.filter marked.free := by
      refine List.filter_congr fun m hm => Bool.eq_iff_iff.mpr ?_
      have hself : marked.free m → m ≠ n := fun hfree heq => h.not_mem_rest hn (heq ▸ .refl) hfree hm
      have hlater : marked.free m → m ∉ below := fun hfree hmem =>
        h.not_mem_rest hn (hfound m hmem) hfree hm
      rw [Marks.free_markAll, Marks.free_mark_iff]
      exact ⟨fun hfree => hfree.1.1, fun hfree => ⟨⟨hfree, hself hfree⟩, hlater hfree⟩⟩
    rw [List.filter_cons_of_pos hn, claiming, ← htraversed, ihrest hafter, hrest]
    rfl
  | case3 marked n rest hn ih => rw [List.filter_cons_of_neg hn, ih (h.skip hn)]

end Walk

namespace Graph

open Walk

variable {N E : Type} {g : Graph N E} {start n : NodeId}

/-- The depth-first pre-order by recursion, in which a node visits those of its successors that are not
visited yet one after another, in the order in which its edges were inserted. -/
def recursivePreorder (g : Graph N E) (start : NodeId) : List NodeId :=
  Walk.traverse .pre g.targets (Marks.none g.nodeCount) [start]

/-- The order by recursion in which a node claims its successors. -/
def claimOrder (g : Graph N E) (start : NodeId) : List NodeId :=
  if g.hasNode start then claiming g.targets ((Marks.none g.nodeCount).mark start) [start] else []

/-- How the order of the forward walk from a node compares to the depth-first pre-order. -/
structure ClaimsFirst (g : Graph N E) (start : NodeId) : Prop where
  /-- A node claims its successors before any of them is visited. -/
  order : g.reachable start = g.claimOrder start
  /-- Up to their order, the nodes are those of the pre-order. -/
  perm : (g.reachable start).Perm (g.recursivePreorder start)
  /-- The order is the same if no successor of a visited node can be reached from an earlier one, except
  through the node. -/
  preorder : (∀ n, g.Path start n → Separates g.targets n) → g.reachable start = g.recursivePreorder start

namespace Consistent

/-- The walk of reachable nodes is the order in which nodes are claimed. -/
theorem reachable_eq_claimOrder (hg : g.Consistent) (start : NodeId) :
    g.reachable start = g.claimOrder start := by
  rw [reachable, walk, claimOrder, hg.successors_eq]
  split
  · have hloop : Walk.preorder g.targets ((Marks.none g.nodeCount).mark start) ([start] ++ []) = _ :=
      preorder_append (by simp) []
    simpa [Walk.preorder] using hloop
  · rfl

/-- The walk of reachable nodes has the nodes of the recursive pre-order. -/
theorem reachable_perm (hg : g.Consistent) (start : NodeId) :
    (g.reachable start).Perm (g.recursivePreorder start) := by
  refine (List.perm_ext_iff_of_nodup nodup_walk nodup_traverse).mpr fun n => ?_
  exact hg.mem_reachable.trans (hg.mem_recursive .pre).symm

/-- The start alone is claimed at first, and nothing is in its way. -/
theorem harmless_start (hseparates : ∀ n, g.Path start n → Separates g.targets n) :
    Harmless g.targets (Marks.none g.nodeCount) ((Marks.none g.nodeCount).mark start) [start] where
  apart := List.pairwise_singleton _ _
  separates r hr _ n hpath := by
    rw [List.mem_singleton] at hr
    subst hr
    exact hseparates n (Relation.ReflTransGen.mono (fun _ _ hstep => mem_targets.mp hstep.1) _ _ hpath)
  marked_free n hfree := (Marks.free_mark_iff.mp hfree).1
  free_iff r _ _ n _ := by rw [Marks.free_mark_iff, List.mem_singleton]

/-- Where claims do not interfere, they come in recursive pre-order. -/
theorem claimOrder_eq (hseparates : ∀ n, g.Path start n → Separates g.targets n) :
    g.claimOrder start = g.recursivePreorder start := by
  rw [claimOrder, recursivePreorder, (harmless_start hseparates).traverse_eq]
  by_cases hstart : g.hasNode start
  · rw [if_pos hstart, List.filter_cons_of_pos (by simpa [hasNode] using hstart), List.filter_nil]
  · rw [if_neg hstart, List.filter_cons_of_neg (by simpa [hasNode] using hstart), List.filter_nil, claiming]

end Consistent

/-- The forward walk visits the nodes of the depth-first pre-order, but lets every node claim its successors
first. -/
theorem Built.claimsFirst (hg : g.Built) (start : NodeId) : g.ClaimsFirst start where
  order := hg.consistent.reachable_eq_claimOrder start
  perm := hg.consistent.reachable_perm start
  preorder hseparates :=
    (hg.consistent.reachable_eq_claimOrder start).trans (Consistent.claimOrder_eq hseparates)

/-- A node with three successors, the first of which has an edge to the last. -/
def shortcutExample : Graph Unit Unit :=
  assemble (List.replicate 4 ()) [⟨0, 1, ()⟩, ⟨0, 2, ()⟩, ⟨0, 3, ()⟩, ⟨1, 3, ()⟩]

/-- Below its first successor the last one is visited by the recursion, but not by the walk. -/
theorem claimsFirst_shortcut : shortcutExample.Built ∧ shortcutExample.ClaimsFirst 0 ∧
    shortcutExample.reachable 0 = [0, 1, 2, 3] ∧ shortcutExample.recursivePreorder 0 = [0, 1, 3, 2] := by
  have hbuilt : shortcutExample.Built := (built_assemble (by decide)).1
  exact ⟨hbuilt, hbuilt.claimsFirst 0, by cbv, by cbv⟩

end Graph

end GuardedFlow
