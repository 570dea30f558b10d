import Mathlib.Logic.Relation
import GuardedFlow.Graph.Walk

/-!
# Recursive depth-first traversals

Depth-first search as a recursion: a node that is not marked yet is marked, its successors are traversed
one after another, and only then the search goes on. `Walk.traverse` takes as an argument where a node is
listed among the nodes that were found below it; before them is the pre-order, after them the postorder.
What is listed does not depend on this: `Walk.mem_traverse` says that these are the nodes to which a path
through unmarked nodes leads, and `Walk.nodup_traverse` that each is listed once.
-/

namespace GuardedFlow

namespace Marks

variable {marks : Marks} {nodes more : List Nat} {n : Nat}

/-- Mark all nodes of a list. -/
def markAll (marks : Marks) (nodes : List Nat) : Marks :=
  nodes.foldr (fun n marks => marks.mark n) marks

/-- Marking no nodes changes nothing. -/
@[simp] theorem markAll_nil : marks.markAll [] = marks := rfl

/-- The first of several nodes is marked last. -/
@[simp] theorem markAll_cons : marks.markAll (n :: nodes) = (marks.markAll nodes).mark n := rfl

/-- A node is free of a mark if it was free before and is another one. -/
theorem free_mark_iff {k : Nat} : (marks.mark k).free n ↔ marks.free n ∧ n ≠ k := by
  rw [free_mark, Bool.and_eq_true, bne_iff_ne, ne_comm]

/-- A node that was just marked is not free. -/
theorem not_free_mark (marks : Marks) (n : Nat) : ¬ (marks.mark n).free n := fun h =>
  (free_mark_iff.mp h).2 rfl

/-- A node is free after others were marked if it was free before and is none of them. -/
theorem free_markAll : (marks.markAll nodes).free n ↔ marks.free n ∧ n ∉ nodes := by
  induction nodes with
  | nil => simp
  | cons k rest ih =>
    rw [markAll_cons, free_mark_iff, ih, List.mem_cons, not_or, and_assoc, and_comm (a := n ∉ rest)]

/-- Marking keeps the number of flags. -/
theorem size_markAll (marks : Marks) (nodes : List Nat) :
    (marks.markAll nodes).flags.size = marks.flags.size := by
  induction nodes with
  | nil => rfl
  | cons n rest ih => exact Array.size_setIfInBounds.trans ih

/-- Marks on equally many nodes are determined by the nodes that are free. -/
theorem eq_of_free {more : Marks} (hsize : marks.flags.size = more.flags.size)
    (h : ∀ n, marks.free n ↔ more.free n) : marks = more := by
  obtain ⟨flags⟩ := marks
  obtain ⟨other⟩ := more
  refine congrArg Marks.mk (Array.ext hsize fun n hn hn' => ?_)
  have hfree := h n
  simp only [free, Array.getElem?_eq_getElem hn, Array.getElem?_eq_getElem hn'] at hfree
  cases hflag : flags[n] <;> cases hother : other[n] <;> simp_all

/-- A node that is marked stays so. -/
theorem mark_of_not_free (h : ¬ marks.free n) : marks.mark n = marks := by
  refine eq_of_free Array.size_setIfInBounds fun k => ?_
  rw [free_mark_iff]
  exact ⟨And.left, fun hk => ⟨hk, fun heq => h (heq ▸ hk)⟩⟩

/-- A mark leaves no more room. -/
theorem room_mark_le (marks : Marks) (n : Nat) : (marks.mark n).room ≤ marks.room := by
  by_cases h : marks.free n
  · have := room_mark h
    omega
  · exact Nat.le_of_eq (by rw [mark_of_not_free h])

/-- Marks leave no more room. -/
theorem room_markAll_le (marks : Marks) (nodes : List Nat) : (marks.markAll nodes).room ≤ marks.room := by
  induction nodes with
  | nil => exact Nat.le_refl _
  | cons n rest ih => exact Nat.le_trans (room_mark_le _ n) ih

end Marks

namespace Walk

/-- Where a traversal lists a node among the nodes that were found below it. -/
structure Listing where
  place : NodeId → List NodeId → List NodeId
  /-- The node and the nodes below are listed, each as often as it was found. -/
  perm (n : NodeId) (below : List NodeId) : (place n below).Perm (n :: below)

namespace Listing

/-- A node comes before the nodes below. -/
def pre : Listing := ⟨fun n below => n :: below, fun _ _ => .refl _⟩

/-- A node comes after the nodes below. -/
def post : Listing := ⟨fun n below => below ++ [n], fun _ _ => List.perm_append_singleton _ _⟩

/-- An order that is extended by a node has this node and those before. -/
theorem mem_place (order : Listing) {n m : NodeId} {below : List NodeId} :
    m ∈ order.place n below ↔ m = n ∨ m ∈ below := by
  rw [(order.perm n below).mem_iff, List.mem_cons]

end Listing

/-- Traverse the nodes of a list one after another, each with all that is reached from it through
unmarked nodes. -/
def traverse (order : Listing) (next : NodeId → List NodeId) (marks : Marks) :
    List NodeId → List NodeId
  | [] => []
  | n :: rest =>
    if marks.free n then
      let below := traverse order next (marks.mark n) (next n)
      order.place n below ++ traverse order next ((marks.mark n).markAll below) rest
    else traverse order next marks rest
termination_by nodes => (marks.room, nodes.length)
decreasing_by
  · next h =>
    refine Prod.Lex.left _ _ ?_
    have := Marks.room_mark h
    omega
  · next h =>
    refine Prod.Lex.left _ _ (Nat.lt_of_le_of_lt (Marks.room_markAll_le _ _) ?_)
    have := Marks.room_mark h
    omega
  · exact Prod.Lex.right _ (Nat.lt_succ_self _)

/-- A step to an unmarked node. -/
def Step (next : NodeId → List NodeId) (marks : Marks) (a b : NodeId) : Prop :=
  b ∈ next a ∧ marks.free b

/-- A path through unmarked nodes; its first node may be marked. -/
abbrev Trail (next : NodeId → List NodeId) (marks : Marks) : NodeId → NodeId → Prop :=
  Relation.ReflTransGen (Step next marks)

variable {order : Listing} {next : NodeId → List NodeId} {marks : Marks} {n : NodeId} {nodes : List NodeId}

/-- With fewer marks there are more paths. -/
theorem Trail.mono {more : Marks} (h : ∀ n, more.free n → marks.free n) {a b : NodeId}
    (hab : Trail next more a b) : Trail next marks a b :=
  Relation.ReflTransGen.mono (fun _ b hstep => ⟨hstep.1, h b hstep.2⟩) a b hab

/-- Once a node and those below it are marked, an unmarked node is one of them or still unmarked. -/
theorem mem_place_or_free (order : Listing) {x : NodeId} {below : List NodeId} (hn : marks.free n) :
    n ∈ order.place x below ∨ ((marks.mark x).markAll below).free n := by
  rw [order.mem_place, Marks.free_markAll, Marks.free_mark_iff]
  grind

/-- To a node that is listed a path leads. -/
theorem trail_of_mem_traverse (hn : n ∈ traverse order next marks nodes) :
    ∃ r ∈ nodes, marks.free r ∧ Trail next marks r n := by
  fun_induction traverse order next marks nodes with
  | case1 => cases hn
  | case2 =>
    rename_i marks x rest hx below ihbelow ihrest
    have hfree₁ (m : NodeId) (hm : (marks.mark x).free m) : marks.free m := (Marks.free_mark_iff.mp hm).1
    have hfree₂ (m : NodeId) (hm : ((marks.mark x).markAll below).free m) : marks.free m :=
      hfree₁ m (Marks.free_markAll.mp hm).1
    rcases List.mem_append.mp hn with hn | hn
    · rcases order.mem_place.mp hn with rfl | hn
      · exact ⟨n, List.mem_cons_self, hx, .refl⟩
      · obtain ⟨r, hr, hfree, hpath⟩ := ihbelow hn
        exact ⟨x, List.mem_cons_self, hx, .head ⟨hr, hfree₁ r hfree⟩ (hpath.mono hfree₁)⟩
    · obtain ⟨r, hr, hfree, hpath⟩ := ihrest hn
      exact ⟨r, List.mem_cons_of_mem _ hr, hfree₂ r hfree, hpath.mono hfree₂⟩
  | case3 _ _ _ _ ih =>
    obtain ⟨r, hr, hfree, hpath⟩ := ih hn
    exact ⟨r, List.mem_cons_of_mem _ hr, hfree, hpath⟩

/-- The unmarked nodes of the list are listed. -/
theorem mem_traverse_of_mem (hn : n ∈ nodes) (hfree : marks.free n) :
    n ∈ traverse order next marks nodes := by
  fun_induction traverse order next marks nodes with
  | case1 => cases hn
  | case2 =>
    rename_i marks x rest hx below ihbelow ihrest
    rcases mem_place_or_free order hfree with hplaced | hlater
    · exact List.mem_append_left _ hplaced
    · have hne := (Marks.free_mark_iff.mp (Marks.free_markAll.mp hlater).1).2
      exact List.mem_append_right _ (ihrest ((List.mem_cons.mp hn).resolve_left hne) hlater)
  | case3 marks x rest hx ih =>
    exact ih ((List.mem_cons.mp hn).resolve_left fun heq => hx (heq ▸ hfree)) hfree

/-- No step leaves the nodes that are listed. -/
theorem mem_traverse_of_step {a b : NodeId} (ha : a ∈ traverse order next marks nodes)
    (hstep : Step next marks a b) : b ∈ traverse order next marks nodes := by
  obtain ⟨hb, hfree⟩ := hstep
  fun_induction traverse order next marks nodes with
  | case1 => cases ha
  | case2 =>
    rename_i marks x rest hx below ihbelow ihrest
    rcases mem_place_or_free order hfree with hplaced | hlater
    · exact List.mem_append_left _ hplaced
    · have hfree₁ := (Marks.free_markAll.mp hlater).1
      rcases List.mem_append.mp ha with ha | ha
      · refine List.mem_append_left _ (order.mem_place.mpr (.inr ?_))
        rcases order.mem_place.mp ha with rfl | ha
        · exact mem_traverse_of_mem hb hfree₁
        · exact ihbelow ha hfree₁
      · exact List.mem_append_right _ (ihrest ha hlater)
  | case3 _ _ _ _ ih => exact ih ha hfree

/-- The nodes that are listed are those to which a path through unmarked nodes leads. -/
theorem mem_traverse : n ∈ traverse order next marks nodes ↔
    ∃ r ∈ nodes, marks.free r ∧ Trail next marks r n := by
  refine ⟨trail_of_mem_traverse, ?_⟩
  rintro ⟨r, hr, hfree, hpath⟩
  induction hpath with
  | refl => exact mem_traverse_of_mem hr hfree
  | tail _ hstep ih => exact mem_traverse_of_step ih hstep

/-- Only unmarked nodes are listed. -/
theorem free_of_mem_traverse (h : n ∈ traverse order next marks nodes) : marks.free n := by
  obtain ⟨r, -, hfree, hpath⟩ := mem_traverse.mp h
  cases hpath with
  | refl => exact hfree
  | tail _ hstep => exact hstep.2

/-- Every node is listed at most once. -/
theorem nodup_traverse : (traverse order next marks nodes).Nodup := by
  fun_induction traverse order next marks nodes with
  | case1 => exact List.nodup_nil
  | case2 =>
    rename_i marks x rest hx below ihbelow ihrest
    have hplaced : (order.place x below).Nodup := by
      rw [(order.perm x below).nodup_iff, List.nodup_cons]
      refine ⟨fun hmem => ?_, ihbelow⟩
      exact marks.not_free_mark x (free_of_mem_traverse hmem)
    refine List.nodup_append.mpr ⟨hplaced, ihrest, ?_⟩
    rintro a ha _ hb rfl
    obtain ⟨hfree, hnot⟩ := Marks.free_markAll.mp (free_of_mem_traverse hb)
    rcases order.mem_place.mp ha with rfl | ha
    · exact marks.not_free_mark a hfree
    · exact hnot ha
  | case3 _ _ _ _ ih => exact ih

end Walk

end GuardedFlow
