import Mathlib.Data.Set.Card
import GuardedFlow.Code.Transfer
import GuardedFlow.Proofs.Graph.Paths

/-!
# The graph of transfers

Whether control can pass from one instruction to another is a relation on positions, `Body.CanPass`. The
graph of transfers lists its pairs: instruction after instruction, and for each instruction the positions in
range at which control goes on, without repetitions (`Body.edges_transfers`). What the graph answers
about predecessors and successors follows from this list, in particular which instructions its oracle counts
as joins.
-/

namespace GuardedFlow

/-- The first occurrences in a list with one more element. -/
theorem eraseDups_concat {α : Type} [DecidableEq α] (l : List α) (a : α) :
    (l ++ [a]).eraseDups = if a ∈ l then l.eraseDups else l.eraseDups ++ [a] := by
  rw [List.eraseDups_append]
  by_cases ha : a ∈ l <;> simp [List.removeAll, List.eraseDups_cons, ha]

/-- A list without its repetitions has none. -/
theorem nodup_eraseDups {α : Type} [DecidableEq α] (l : List α) : l.eraseDups.Nodup := by
  induction l using List.reverseRecOn with
  | nil => exact List.nodup_nil
  | append_singleton l a ih =>
    rw [eraseDups_concat]
    split
    · exact ih
    · rename_i hnew
      apply List.nodup_append_comm.mp
      exact List.nodup_cons.mpr ⟨fun ha => hnew (List.mem_eraseDups.mp ha), ih⟩

namespace Op

/-- The positions at which control goes on after the operation at a position: its jump targets, as they are
written, and then the next position if control can reach it. -/
def onward (index : Nat) : Op Nat → List Nat
  | goto target => [target]
  | branch _ target => [target, index + 1]
  | tableSwitch _ _ targets otherwise => targets ++ [otherwise]
  | lookupSwitch _ cases otherwise => cases.map (fun (_, target) => target) ++ [otherwise]
  | ret _ | retVoid | subroutineReturn _ | throw _ => []
  | assign .. | identity .. | invoke _ | monitorEnter _ | monitorExit _ | nop | breakpoint => [index + 1]

/-- Control goes on at the jump targets, and at the next position if the operation falls through. -/
theorem onward_eq (index : Nat) (op : Op Nat) :
    op.onward index = op.jumpTargets ++ if op.fallsThrough then [index + 1] else [] := by
  cases op <;> simp [onward, jumpTargets, fallsThrough]

end Op

namespace Body

/-- Control can pass from the instruction at one position to the one at another. -/
def CanPass (body : Body) (i j : Nat) : Prop :=
  j < body.code.size ∧ ∃ instr, body.code[i]? = some instr ∧ j ∈ instr.op.onward i

/-- The positions to which control can pass from an instruction, in the order in which they are first
mentioned. -/
def destinations (body : Body) (index : Nat) (instr : Instr) : List Nat :=
  ((instr.op.onward index).filter (· < body.code.size)).eraseDups

/-- The transfers of some instructions from the start of a body on. -/
def linksOf (body : Body) (instrs : List Instr) : List (Link Unit) :=
  instrs.zipIdx.flatMap fun (instr, index) => (body.destinations index instr).map (⟨index, ·, ()⟩)

variable {body : Body} {g : Graph Unit Unit} {source : NodeId}

/-- A destination is an instruction that control can go on to. -/
theorem mem_destinations {index j : Nat} {instr : Instr} : j ∈ body.destinations index instr ↔
    j < body.code.size ∧ j ∈ instr.op.onward index := by
  rw [destinations, List.mem_eraseDups, List.mem_filter, decide_eq_true_iff, and_comm]

/-- The destinations are the targets in the code, each of them once. -/
theorem destinations_eq (body : Body) (index : Nat) (instr : Instr) :
    body.destinations index instr =
      ((body.transferTargets index instr).filter (· < body.code.size)).eraseDups := by
  have hnext : [index + 1].filter (· < body.code.size) =
      (body.next? index).toList.filter (· < body.code.size) := by
    unfold next?
    by_cases hlt : index + 1 < body.code.size <;> simp [hlt]
  unfold destinations transferTargets
  rw [Op.onward_eq, List.filter_append, List.filter_append]
  by_cases hfalls : instr.op.fallsThrough <;> simp only [hfalls, if_true, hnext]
  simp

/-! ### Adding edges once -/

/-- An edge adds no node. -/
theorem nodeCount_linkOnce (g : Graph Unit Unit) (source target : NodeId) :
    (linkOnce g source target).nodeCount = g.nodeCount := by
  unfold linkOnce
  split <;> rfl

/-- The checked addition is not refused. -/
theorem addOnce_eq (hsource : source < g.nodeCount) (target : NodeId) :
    addOnce source g target = .ok (linkOnce g source target) := by
  unfold addOnce linkOnce
  split
  · rename_i hnew
    have hsource : g.hasNode source = true := decide_eq_true hsource
    have htarget := (Bool.and_eq_true_iff.mp hnew).1
    simp [Graph.addEdge, hsource, htarget, Except.map]
  · rfl

/-- Adding the edges one by one succeeds. -/
theorem foldlM_addOnce (hsource : source < g.nodeCount) (targets : List NodeId) :
    targets.foldlM (addOnce source) g = .ok (targets.foldl (linkOnce · source ·) g) := by
  induction targets generalizing g with
  | nil => rfl
  | cons target rest ih =>
    rw [List.foldlM_cons, addOnce_eq hsource]
    exact ih (nodeCount_linkOnce g source target ▸ hsource)

/-- Edges add no nodes. -/
theorem nodeCount_foldl_linkOnce (g : Graph Unit Unit) (source : NodeId) (targets : List NodeId) :
    (targets.foldl (linkOnce · source ·) g).nodeCount = g.nodeCount := by
  induction targets generalizing g with
  | nil => rfl
  | cons target rest ih => rw [List.foldl_cons, ih, nodeCount_linkOnce]

/-- An instruction without edges so far gets an edge to each of its targets in range, in the order of their
first occurrences. -/
theorem foldl_linkOnce (hg : g.Consistent) (hsource : source < g.nodeCount)
    (hnone : ∀ link ∈ g.edges, link.source ≠ source) (targets : List NodeId) :
    (targets.foldl (linkOnce · source ·) g).Consistent ∧
      (targets.foldl (linkOnce · source ·) g).edges.toList = g.edges.toList ++
        ((targets.filter (· < g.nodeCount)).eraseDups).map (⟨source, ·, ()⟩) := by
  induction targets using List.reverseRecOn with
  | nil => exact ⟨hg, (List.append_nil _).symm⟩
  | append_singleton targets target ih =>
    obtain ⟨hk, hedges⟩ := ih
    have hcount := nodeCount_foldl_linkOnce g source targets
    rw [List.foldl_append, List.foldl_cons, List.foldl_nil]
    generalize targets.foldl (linkOnce · source ·) g = k at hk hedges hcount
    have hfound : (k.findEdge source target).isSome ↔ target ∈ targets.filter (· < g.nodeCount) := by
      rw [hk.findEdge_isSome_iff, ← List.mem_eraseDups]
      simp only [Array.mem_def, hedges, List.mem_append, List.mem_map]
      constructor
      · rintro ⟨link, hlink | ⟨t, ht, rfl⟩, hends⟩
        · exact absurd hends.1 (hnone link (Array.mem_def.mpr hlink))
        · exact hends.2 ▸ ht
      · intro ht
        exact ⟨⟨source, target, ()⟩, .inr ⟨target, ht, rfl⟩, rfl, rfl⟩
    unfold linkOnce
    rw [List.filter_append]
    by_cases htarget : target < g.nodeCount
    · rw [List.filter_cons_of_pos (by simpa using htarget), List.filter_nil, eraseDups_concat]
      by_cases hold : target ∈ targets.filter (· < g.nodeCount)
      · have hsome := hfound.mpr hold
        rw [if_neg (by simp [Option.isSome_iff_ne_none.mp hsome]), if_pos hold]
        exact ⟨hk, hedges⟩
      · have hnew : (k.findEdge source target).isNone := by simpa using mt hfound.mp hold
        have hnode : k.hasNode target = true := decide_eq_true (hcount ▸ htarget)
        rw [if_pos (by simp [hnew, hnode]), if_neg hold]
        refine ⟨hk.link (hcount ▸ hsource) (hcount ▸ htarget) (), ?_⟩
        rw [List.map_append, ← List.append_assoc, ← hedges]
        exact Array.toList_push
    · rw [List.filter_cons_of_neg (by simpa using htarget), List.filter_nil, List.append_nil,
        if_neg (by simp [Graph.hasNode, hcount, htarget])]
      exact ⟨hk, hedges⟩

/-! ### Going through the instructions -/

/-- The links of one more instruction come last. -/
theorem linksOf_concat (instrs : List Instr) (last : Instr) : body.linksOf (instrs ++ [last]) =
    body.linksOf instrs ++ (body.destinations instrs.length last).map (⟨instrs.length, ·, ()⟩) := by
  unfold linksOf
  rw [List.zipIdx_append, List.flatMap_append]
  simp

/-- The edges of some instructions leave these. -/
theorem source_lt_of_mem_linksOf {instrs : List Instr} {link : Link Unit}
    (h : link ∈ body.linksOf instrs) : link.source < instrs.length := by
  obtain ⟨⟨instr, index⟩, hinstr, hlink⟩ := List.mem_flatMap.mp h
  obtain ⟨target, -, rfl⟩ := List.mem_map.mp hlink
  exact (List.getElem?_eq_some_iff.mp (List.mem_zipIdx_iff_getElem?.mp hinstr)).1

/-- Going through instructions from the start on adds their transfers, one instruction after another, and
no addition is refused. -/
theorem foldl_instrs (hg : g.Consistent) (hcount : g.nodeCount = body.code.size) (hnone : g.edges = #[])
    (instrs : List Instr) (hle : instrs.length ≤ body.code.size) :
    let linked := instrs.zipIdx.foldl (fun g (instr, index) =>
      (body.transferTargets index instr).foldl (linkOnce · index ·) g) g
    linked.Consistent ∧ linked.nodeCount = body.code.size ∧ linked.edges.toList = body.linksOf instrs ∧
      instrs.zipIdx.foldlM (fun g (instr, index) =>
        (body.transferTargets index instr).foldlM (addOnce index) g) g = .ok linked := by
  induction instrs using List.reverseRecOn with
  | nil => exact ⟨hg, hcount, congrArg Array.toList hnone, rfl⟩
  | append_singleton instrs last ih =>
    have hlast : instrs.length < body.code.size := by simpa using hle
    obtain ⟨hk, hkcount, hedges, hchecked⟩ := ih (Nat.le_of_lt hlast)
    simp only [List.zipIdx_append, List.foldl_append, List.foldlM_append, hchecked]
    generalize instrs.zipIdx.foldl _ g = k at hk hkcount hedges
    have hsource : instrs.length < k.nodeCount := hkcount ▸ hlast
    have hfresh : ∀ link ∈ k.edges, link.source ≠ instrs.length := by
      intro link hlink
      rw [Array.mem_def, hedges] at hlink
      exact Nat.ne_of_lt (source_lt_of_mem_linksOf hlink)
    obtain ⟨hlinked, hmore⟩ := foldl_linkOnce hk hsource hfresh (body.transferTargets instrs.length last)
    have hone : [last].zipIdx (0 + instrs.length) = [(last, instrs.length)] := by simp
    rw [hone, List.foldl_cons, List.foldl_nil]
    refine ⟨hlinked, ?_, ?_, ?_⟩
    · rw [nodeCount_foldl_linkOnce, hkcount]
    · rw [hmore, hedges, hkcount, linksOf_concat, destinations_eq]
    · change (body.transferTargets instrs.length last).foldlM (addOnce instrs.length) k >>= pure = _
      rw [foldlM_addOnce hsource]
      rfl

/-- The edges of the graph of transfers are the transfers of all instructions. The graph is built without a
refusal, and its lists are right. -/
theorem edges_transfers (body : Body) : body.transfers.Consistent ∧
    body.transfers.nodeCount = body.code.size ∧
    body.transfers.edges.toList = body.linksOf body.code.toList ∧
    body.transfers? = .ok body.transfers := by
  obtain ⟨hbuilt, hnodes, hedges⟩ :=
    Graph.foldl_addNode (E := Unit) .empty (body.code.toList.map fun _ => ())
  rw [List.foldl_map, Array.foldl_toList] at hbuilt hnodes hedges
  have hcount := congrArg List.length hnodes
  rw [Array.length_toList] at hcount
  have hsize : (body.code.foldl (fun g _ => (g.addNode ()).2)
      (Graph.empty : Graph Unit Unit)).nodeCount = body.code.size := by
    simpa [Graph.empty, Graph.nodeCount] using hcount
  have hle : body.code.toList.length ≤ body.code.size := Nat.le_of_eq Array.length_toList
  exact foldl_instrs hbuilt.consistent hsize hedges body.code.toList hle

/-! ### Successors and predecessors -/

/-- The links of a body are the transfers that can pass. -/
theorem mem_linksOf {link : Link Unit} : link ∈ body.linksOf body.code.toList ↔
    body.CanPass link.source link.target := by
  unfold linksOf CanPass
  simp only [List.mem_flatMap, List.mem_map, Prod.exists, List.mem_zipIdx_iff_getElem?,
    Array.getElem?_toList, mem_destinations]
  constructor
  · rintro ⟨instr, index, hinstr, target, ⟨hlt, hpass⟩, rfl⟩
    exact ⟨hlt, instr, hinstr, hpass⟩
  · rintro ⟨hlt, instr, hinstr, hpass⟩
    exact ⟨instr, link.source, hinstr, link.target, ⟨hlt, hpass⟩, rfl⟩

/-- The transfers of one of the instructions. -/
theorem filter_source_linksOf (instrs : List Instr) (index : Nat) :
    (body.linksOf instrs).filter (·.source == index) =
      ((instrs[index]?.map (body.destinations index)).getD []).map (⟨index, ·, ()⟩) := by
  induction instrs using List.reverseRecOn with
  | nil => rfl
  | append_singleton instrs last ih =>
    rw [linksOf_concat, List.filter_append, ih]
    rcases Nat.lt_trichotomy index instrs.length with hlt | rfl | hgt
    · rw [List.getElem?_append_left hlt, List.filter_eq_nil_iff.mpr, List.append_nil]
      simp [Nat.ne_of_gt hlt]
    · rw [List.filter_eq_self.mpr] <;> simp
    · rw [List.filter_eq_nil_iff.mpr, List.append_nil]
      · rw [List.getElem?_eq_none (Nat.le_of_lt hgt), List.getElem?_eq_none (by simpa using hgt)]
      · simp [Nat.ne_of_lt hgt]

/-- The transfers to one instruction come from later and later ones. -/
theorem filter_target_linksOf (instrs : List Instr) (target : Nat) :
    (((body.linksOf instrs).filter (·.target == target)).map Link.source).Pairwise (· < ·) := by
  induction instrs using List.reverseRecOn with
  | nil => exact List.Pairwise.nil
  | append_singleton instrs last ih =>
    rw [linksOf_concat, List.filter_append, List.map_append, List.pairwise_append]
    refine ⟨ih, ?_, ?_⟩
    · -- each destination is mentioned once, so at most one of the transfers of `last` leads to `target`
      have hnodup : (body.destinations instrs.length last).Nodup := nodup_eraseDups _
      rw [List.filter_map]
      change (List.map _ (List.map _ ((body.destinations instrs.length last).filter (· == target)))).Pairwise _
      rw [List.filter_beq, hnodup.count]
      split <;> simp
    · intro i hi j hj
      obtain ⟨first, hfirst, rfl⟩ := List.mem_map.mp hi
      obtain ⟨second, hsecond, rfl⟩ := List.mem_map.mp hj
      obtain ⟨t, -, rfl⟩ := List.mem_map.mp (List.mem_filter.mp hsecond).1
      exact source_lt_of_mem_linksOf (List.mem_filter.mp hfirst).1

/-- The successors of an instruction are its destinations. -/
theorem successors_transfers {index : Nat} {instr : Instr} (hinstr : body.code[index]? = some instr) :
    body.transfers.successors index = body.destinations index instr := by
  obtain ⟨hg, -, hedges, -⟩ := body.edges_transfers
  rw [hg.successors_eq, Graph.targets, Graph.linksFrom, hedges, filter_source_linksOf,
    Array.getElem?_toList, hinstr, Option.map_some, Option.getD_some, List.map_map]
  exact List.map_id _

/-- The predecessors of an instruction are listed by increasing position. -/
theorem predecessors_transfers (body : Body) (target : Nat) :
    (body.transfers.predecessors target).Pairwise (· < ·) := by
  obtain ⟨hg, -, hedges, -⟩ := body.edges_transfers
  rw [hg.predecessors_eq, hedges]
  exact filter_target_linksOf _ target

/-- A predecessor is listed once. -/
theorem nodup_predecessors (body : Body) (target : Nat) :
    (body.transfers.predecessors target).Nodup :=
  (body.predecessors_transfers target).imp Nat.ne_of_lt

/-- The successors of an instruction are those that control can pass to. -/
theorem mem_successors_transfers {i j : Nat} :
    j ∈ body.transfers.successors i ↔ body.CanPass i j := by
  obtain ⟨hg, -, hedges, -⟩ := body.edges_transfers
  rw [hg.mem_successors]
  unfold Graph.Edge
  simp only [Array.mem_def, hedges, mem_linksOf]
  constructor
  · rintro ⟨link, hpass, rfl, rfl⟩
    exact hpass
  · exact fun hpass => ⟨⟨i, j, ()⟩, hpass, rfl, rfl⟩

/-- Control passes from nowhere outside of a body. -/
theorem successors_outside (body : Body) {index : Nat} (h : body.code.size ≤ index) :
    body.transfers.successors index = [] := by
  apply List.eq_nil_iff_forall_not_mem.mpr
  intro j hj
  obtain ⟨-, instr, hinstr, -⟩ := mem_successors_transfers.mp hj
  exact absurd (Array.getElem?_eq_some_iff.mp hinstr).1 (Nat.not_lt.mpr h)

/-- The predecessors of an instruction are those that control can pass from. -/
theorem mem_predecessors_transfers {i j : Nat} :
    i ∈ body.transfers.predecessors j ↔ body.CanPass i j := by
  obtain ⟨hg, -⟩ := body.edges_transfers
  rw [hg.mem_predecessors_iff, ← hg.mem_successors, mem_successors_transfers]

/-- The oracle of a body counts the predecessors that are listed. -/
theorem count_eq (body : Body) (target : Nat) :
    body.predecessorOracle.count target = (body.transfers.predecessors target).length := by
  obtain ⟨hg, -⟩ := body.edges_transfers
  rw [Graph.predecessors, List.length_map]
  exact (hg.degrees target).2

/-- Control can pass from the predecessors of an instruction to it, and from no other one. -/
theorem mem_predecessors (body : Body) {index target : Nat} (hlt : target < body.code.size) :
    index ∈ body.transfers.predecessors target ↔
      ∃ instr, body.code[index]? = some instr ∧ target ∈ body.transferTargets index instr := by
  rw [mem_predecessors_transfers, CanPass, and_iff_right hlt]
  refine exists_congr fun instr => and_congr_right fun _ => ?_
  have hmem : target ∈ body.destinations index instr ↔ target ∈ body.transferTargets index instr := by
    rw [destinations_eq, List.mem_eraseDups, List.mem_filter, decide_eq_true_iff, and_iff_left hlt]
  rw [← hmem, mem_destinations, and_iff_right hlt]

/-- An instruction is counted as a join if two different ones can precede it. -/
theorem one_lt_count_iff (body : Body) {target : Nat} :
    1 < body.predecessorOracle.count target ↔ ∃ i ∈ body.transfers.predecessors target,
      ∃ j ∈ body.transfers.predecessors target, i ≠ j := by
  rw [count_eq, ← List.toFinset_card_of_nodup (body.nodup_predecessors target), Finset.one_lt_card]
  simp only [List.mem_toFinset]

/-- An instruction to which control can pass from two others is counted as a join. -/
theorem one_lt_count (body : Body) {i j target : Nat} {first second : Instr}
    (hi : body.code[i]? = some first) (hj : body.code[j]? = some second) (hne : i ≠ j)
    (htarget : target ∈ body.transferTargets i first)
    (htarget' : target ∈ body.transferTargets j second) (hlt : target < body.code.size) :
    1 < body.predecessorOracle.count target :=
  body.one_lt_count_iff.mpr ⟨i, (body.mem_predecessors hlt).mpr ⟨first, hi, htarget⟩, j,
    (body.mem_predecessors hlt).mpr ⟨second, hj, htarget'⟩, hne⟩

/-- The graph of transfers is the relation of control between the instructions of a body. -/
structure RecordsTransfers (body : Body) : Prop where
  /-- The graph is built without a refusal. -/
  built : body.transfers? = .ok body.transfers
  /-- The successors of an instruction are those to which control can pass from it. -/
  successor : ∀ i j, j ∈ body.transfers.successors i ↔ body.CanPass i j
  /-- The predecessors of an instruction are those from which control can pass to it. -/
  predecessor : ∀ i j, i ∈ body.transfers.predecessors j ↔ body.CanPass i j
  /-- Nothing is listed twice. -/
  once : ∀ i, (body.transfers.successors i).Nodup ∧ (body.transfers.predecessors i).Nodup
  /-- Successors come in the order in which they occur first among the jump targets, followed by the next
  position. -/
  order : ∀ i instr, body.code[i]? = some instr → body.transfers.successors i =
    ((instr.op.onward i).filter (· < body.code.size)).eraseDups
  /-- Predecessors come by increasing position. -/
  increasing : ∀ j, (body.transfers.predecessors j).Pairwise (· < ·)
  /-- The oracle counts the different predecessors. -/
  count : ∀ j, body.predecessorOracle.count j = Set.ncard {i | body.CanPass i j}
  /-- A position outside of the body has no neighbours. -/
  outside : ∀ i, body.code.size ≤ i → body.transfers.successors i = [] ∧
    body.transfers.predecessors i = [] ∧ body.predecessorOracle.count i = 0

/-- Every body has a graph of transfers, and it is exact. -/
theorem recordsTransfers (body : Body) : body.RecordsTransfers where
  built := body.edges_transfers.2.2.2
  successor _ _ := mem_successors_transfers
  predecessor _ _ := mem_predecessors_transfers
  once i := by
    refine ⟨?_, body.nodup_predecessors i⟩
    cases hinstr : body.code[i]? with
    | none =>
      rw [body.successors_outside (Array.getElem?_eq_none_iff.mp hinstr)]
      exact List.nodup_nil
    | some instr =>
      rw [successors_transfers hinstr]
      exact nodup_eraseDups _
  order _ _ hinstr := successors_transfers hinstr
  increasing := body.predecessors_transfers
  count j := by
    have hset : {i | body.CanPass i j} = ((body.transfers.predecessors j).toFinset : Set Nat) := by
      ext i
      simp [mem_predecessors_transfers]
    rw [hset, Set.ncard_coe_finset, List.toFinset_card_of_nodup (body.nodup_predecessors j), count_eq]
  outside i hi := by
    have hnone : body.transfers.predecessors i = [] := by
      apply List.eq_nil_iff_forall_not_mem.mpr
      intro j hj
      exact absurd (mem_predecessors_transfers.mp hj).1 (Nat.not_lt.mpr hi)
    exact ⟨body.successors_outside hi, hnone, by rw [count_eq, hnone, List.length_nil]⟩

end Body

end GuardedFlow
