import GuardedFlow.Flow.Draft

/-!
# How a draft grows

A lowering appends statements to blocks, adds blocks and edges, and enters blocks in the map of the
instructions they start at; it takes nothing back. `Draft.Extends` lists what was added between two
drafts, and `Draft.Mapped` is what stays true of the map.
-/

namespace GuardedFlow

namespace Block

/-- Append statements. -/
def extend (block : Block) (out : List Stmt) : Block :=
  { block with stmts := block.stmts ++ out }

/-- A block that is extended by nothing. -/
@[simp] theorem extend_nil (block : Block) : block.extend [] = block := by
  simp [extend]

/-- A block that is extended twice. -/
theorem extend_append (block : Block) (out more : List Stmt) :
    (block.extend out).extend more = block.extend (out ++ more) := by
  have h : block.stmts ++ out ++ more = block.stmts ++ (out ++ more) := by
    apply Array.ext'
    simp
  simp only [extend, h]

/-- Pushing a statement extends a block by it. -/
theorem push_eq_extend (block : Block) (stmt : Stmt) : block.push stmt = block.extend [stmt] := by
  simp [push, extend]

end Block

namespace Graph

variable {N E : Type}

/-- Changing the payload of a node by nothing changes nothing. -/
theorem modifyNode_id (g : Graph N E) (n : NodeId) : g.modifyNode n id = g := by
  have h : g.nodes.modify n id = g.nodes := by
    apply Array.ext_getElem?
    intro i
    by_cases hi : n = i <;> simp [Array.getElem?_modify, hi]
  simp only [modifyNode, h]

/-- Two changes of the payload of one node are one change. -/
theorem modifyNode_modifyNode (g : Graph N E) (n : NodeId) (f k : N → N) :
    (g.modifyNode n f).modifyNode n k = g.modifyNode n (k ∘ f) := by
  have h : (g.nodes.modify n f).modify n k = g.nodes.modify n (k ∘ f) := by
    apply Array.ext_getElem?
    intro i
    by_cases hi : n = i <;> simp [Array.getElem?_modify, hi]
  simp only [modifyNode, h]

/-- Append statements to a block of a control-flow graph. -/
def extend (g : Graph Block Guard) (block : BlockId) (out : List Stmt) : Graph Block Guard :=
  g.modifyNode block (·.extend out)

/-- A graph that is extended by nothing. -/
@[simp] theorem extend_nil (g : Graph Block Guard) (block : BlockId) : g.extend block [] = g := by
  have h : (fun b : Block => b.extend []) = id := by
    funext b
    exact b.extend_nil
  rw [extend, h, modifyNode_id]

/-- A graph that is extended twice at the same block. -/
theorem extend_append (g : Graph Block Guard) (block : BlockId) (out more : List Stmt) :
    (g.extend block out).extend block more = g.extend block (out ++ more) := by
  rw [extend, extend, modifyNode_modifyNode, extend]
  congr 1
  funext b
  exact b.extend_append out more

/-- The statements of a block; none for a block that the graph does not have. -/
def stmtsAt (g : Graph Block Guard) (block : BlockId) : List Stmt :=
  ((g.node? block).map (·.stmts.toList)).getD []

/-- A block that is added has no statements. -/
theorem stmtsAt_addNode (g : Graph Block Guard) (label : String) (block : BlockId) :
    (g.addNode (Block.new label)).2.stmtsAt block = g.stmtsAt block := by
  change (((g.nodes.push (Block.new label))[block]?).map (·.stmts.toList)).getD [] = _
  rw [Array.getElem?_push]
  by_cases h : block = g.nodes.size
  · simp [h, stmtsAt, node?, Block.new]
  · simp [h, stmtsAt, node?]

/-- Statements that are appended to a block of the graph go to the end of that block only. -/
theorem stmtsAt_extend {g : Graph Block Guard} {block : BlockId} (h : block < g.nodeCount)
    (out : List Stmt) (other : BlockId) :
    (g.extend block out).stmtsAt other = g.stmtsAt other ++ if other = block then out else [] := by
  change (((g.nodes.modify block (·.extend out))[other]?).map (·.stmts.toList)).getD [] = _
  have hlt : block < g.nodes.size := h
  rw [Array.getElem?_modify]
  by_cases hother : other = block
  · subst hother
    simp [stmtsAt, node?, hlt, Block.extend]
  · simp [stmtsAt, node?, hother, Ne.symm hother]

end Graph

namespace Draft

/-- The map of blocks of a body: it has an entry for every instruction, its blocks are blocks of the
graph but not the sink, no block starts at two instructions, and the entry block starts at the first
one. -/
structure Mapped (body : Body) (d : Draft) : Prop where
  lowers : d.body = body
  size : d.starts.size = body.code.size
  sink : Flow.sink < d.graph.nodeCount
  valid : ∀ index block, d.blockAt? index = some block →
    block < d.graph.nodeCount ∧ block ≠ Flow.sink
  injective : ∀ index other block, d.blockAt? index = some block → d.blockAt? other = some block →
    index = other
  entry : 0 < body.code.size → d.blockAt? 0 = some Flow.entry

/-- A block starts at instructions of the stream only. -/
theorem Mapped.lt {body : Body} {d : Draft} (h : d.Mapped body) {index : Nat} {block : BlockId}
    (hstarts : d.blockAt? index = some block) : index < body.code.size := by
  refine Nat.lt_of_not_le fun hge => ?_
  rw [← h.size] at hge
  simp [blockAt?, Array.getElem?_eq_none hge] at hstarts

/-- What was added to a draft: statements to one block, edges, and blocks for some instructions. -/
structure Extends (d e : Draft) (block : BlockId) (out : List Stmt) (links : List (Link Guard))
    (targets : List Nat) : Prop where
  mapped : ∀ body, d.Mapped body → e.Mapped body
  kept : ∀ index other, d.blockAt? index = some other → e.blockAt? index = some other
  others : ∀ index ∉ targets, e.blockAt? index = d.blockAt? index
  stmts : ∀ other, e.graph.stmtsAt other = d.graph.stmtsAt other ++ if other = block then out else []
  edges : e.graph.edges.toList = d.graph.edges.toList ++ links
  nodeCount : d.graph.nodeCount ≤ e.graph.nodeCount

namespace Extends

variable {d e f : Draft} {block : BlockId} {out out' : List Stmt} {links links' : List (Link Guard)}
  {targets targets' : List Nat}

/-- Nothing was added. -/
theorem refl (d : Draft) (block : BlockId) : Extends d d block [] [] [] where
  mapped _ h := h
  kept _ _ h := h
  others _ _ := rfl
  stmts _ := by simp
  edges := by simp
  nodeCount := Nat.le_refl _

/-- Additions follow one another. -/
theorem trans (hde : Extends d e block out links targets) (hef : Extends e f block out' links' targets') :
    Extends d f block (out ++ out') (links ++ links') (targets ++ targets') where
  mapped body h := hef.mapped body (hde.mapped body h)
  kept index other h := hef.kept index other (hde.kept index other h)
  others index h := by
    rw [List.mem_append, not_or] at h
    rw [hef.others index h.2, hde.others index h.1]
  stmts other := by
    rw [hef.stmts, hde.stmts]
    by_cases h : other = block <;> simp [h]
  edges := by rw [hef.edges, hde.edges, List.append_assoc]
  nodeCount := Nat.le_trans hde.nodeCount hef.nodeCount

/-- Additions without statements follow. -/
theorem andLinks (hde : Extends d e block out links targets)
    (hef : Extends e f block [] links' targets') :
    Extends d f block out (links ++ links') (targets ++ targets') := by
  simpa only [List.append_nil] using hde.trans hef

/-- More instructions may be named as possible targets. -/
theorem mono (h : Extends d e block out links targets) (hsub : targets ⊆ targets') :
    Extends d e block out links targets' :=
  { h with others := fun index hindex => h.others index fun hmem => hindex (hsub hmem) }

/-- An edge was added. -/
theorem of_link (d : Draft) (block source target : BlockId) (guard : Guard) :
    Extends d { d with graph := d.graph.link source target guard } block [] [⟨source, target, guard⟩]
      [] where
  mapped body h := ⟨h.lowers, h.size, h.sink, h.valid, h.injective, h.entry⟩
  kept _ _ h := h
  others _ _ := rfl
  stmts _ := by simp [Graph.stmtsAt, Graph.link, Graph.node?]
  edges := by simp [Graph.link]
  nodeCount := Nat.le_refl _

/-- Statements were appended to a block of the graph. -/
theorem of_extend {d : Draft} (h : block < d.graph.nodeCount) (out : List Stmt) :
    Extends d { d with graph := d.graph.extend block out } block out [] [] where
  mapped body h := by
    have hcount : (d.graph.extend block out).nodeCount = d.graph.nodeCount := Array.size_modify ..
    exact ⟨h.lowers, h.size, hcount ▸ h.sink, hcount ▸ h.valid, h.injective, h.entry⟩
  kept _ _ h := h
  others _ _ := rfl
  stmts := Graph.stmtsAt_extend h out
  edges := by simp [Graph.extend, Graph.modifyNode]
  nodeCount := Nat.le_of_eq (Array.size_modify ..).symm

end Extends

/-- The outcome of asking a draft for the block that starts at an instruction: the block that was
there, or a new one, which is entered in the map if the instruction is in the stream. -/
inductive Located (d : Draft) (index : Nat) : BlockId → Draft → Prop where
  | old (block : BlockId) (h : d.blockAt? index = some block) : Located d index block d
  | new (label : String) (h : d.blockAt? index = none) : Located d index d.graph.nodeCount
      { d with
        graph := (d.graph.addNode (Block.new label)).2
        starts := d.starts.modify index fun _ => some d.graph.nodeCount }

/-- A request for a block gives the old or a new one. -/
theorem blockAt_located (d : Draft) (index : Nat) :
    Located d index (d.blockAt index).1 (d.blockAt index).2 := by
  cases h : d.blockAt? index with
  | some block =>
    have hblock : d.blockAt index = (block, d) := by simp only [blockAt, h]
    rw [hblock]
    exact .old block h
  | none =>
    have hblock : d.blockAt index = (d.graph.nodeCount, { d with
        graph := (d.graph.addNode (Block.new s!"block{d.graph.nodeCount - 1}")).2
        starts := d.starts.modify index fun _ => some d.graph.nodeCount }) := by
      simp only [blockAt, h]
      rfl
    rw [hblock]
    exact .new _ h

/-- The map of blocks after one of its entries was set. -/
theorem blockAt?_modify (d : Draft) (index other : Nat) (block : BlockId)
    (graph : Graph Block Guard) :
    Draft.blockAt? { d with graph, starts := d.starts.modify index fun _ => some block } other =
      if index = other ∧ other < d.starts.size then some block else d.blockAt? other := by
  unfold blockAt?
  rw [Array.getElem?_modify]
  by_cases hlt : other < d.starts.size
  · by_cases heq : index = other <;> simp [heq, hlt]
  · by_cases heq : index = other <;> simp [heq, hlt]

namespace Located

variable {d e : Draft} {index : Nat} {block : BlockId}

/-- The block that was asked for starts at the instruction, if that is in the stream. -/
theorem found (h : d.Located index block e) (hlt : index < d.starts.size) :
    e.blockAt? index = some block := by
  cases h with
  | old _ hold => exact hold
  | new label hnew =>
    rw [blockAt?_modify]
    simp [hlt]

/-- Other blocks stay in the map when a block is added. -/
theorem kept (h : d.Located index block e) {other : Nat} {start : BlockId}
    (hother : d.blockAt? other = some start) : e.blockAt? other = some start := by
  cases h with
  | old _ hold => exact hother
  | new label hnew =>
    rw [blockAt?_modify, if_neg]
    · exact hother
    · rintro ⟨rfl, -⟩
      rw [hnew] at hother
      contradiction

/-- A request for a block keeps the map of blocks in order. -/
theorem mapped (h : d.Located index block e) {body : Body} (hd : d.Mapped body) : e.Mapped body := by
  cases h with
  | old _ _ => exact hd
  | new label hnew =>
    have hcount : (d.graph.addNode (Block.new label)).2.nodeCount = d.graph.nodeCount + 1 :=
      Array.size_push _
    have hsink := hd.sink
    refine ⟨hd.lowers, (Array.size_modify ..).trans hd.size, ?_, ?_, ?_, ?_⟩
    · exact hcount ▸ Nat.lt_succ_of_lt hsink
    · intro other start hother
      rw [hcount]
      rw [blockAt?_modify] at hother
      split at hother
      · cases hother
        exact ⟨Nat.lt_succ_self _, (Nat.ne_of_lt hsink).symm⟩
      · obtain ⟨hlt, hne⟩ := hd.valid other start hother
        exact ⟨Nat.lt_succ_of_lt hlt, hne⟩
    · intro first second start hfirst hsecond
      -- a new block has a number that no block of the old map has
      rw [blockAt?_modify] at hfirst hsecond
      split at hfirst <;> split at hsecond
      · rename_i h₁ h₂
        exact h₁.1.symm.trans h₂.1
      · cases hfirst
        exact absurd (hd.valid second _ hsecond).1 (Nat.lt_irrefl _)
      · cases hsecond
        exact absurd (hd.valid first _ hfirst).1 (Nat.lt_irrefl _)
      · exact hd.injective first second start hfirst hsecond
    · intro hpos
      exact (Located.new label hnew).kept (hd.entry hpos)

/-- A request for a block adds at most that block. -/
theorem extended (h : d.Located index block e) (other : BlockId) :
    Extends d e other [] [] [index] where
  mapped _ := h.mapped
  kept _ _ := h.kept
  others i hi := by
    cases h with
    | old _ _ => rfl
    | new label hnew =>
      rw [blockAt?_modify, if_neg]
      rintro ⟨rfl, -⟩
      exact hi List.mem_cons_self
  stmts n := by
    cases h with
    | old _ _ => simp
    | new label hnew => simpa using d.graph.stmtsAt_addNode label n
  edges := by
    cases h with
    | old _ _ => simp
    | new label hnew => simp [Graph.addNode]
  nodeCount := by
    cases h with
    | old _ _ => exact Nat.le_refl _
    | new label hnew =>
      have hcount : (d.graph.addNode (Block.new label)).2.nodeCount = d.graph.nodeCount + 1 :=
        Array.size_push _
      exact hcount ▸ Nat.le_succ _

end Located

/-- Before any instruction was entered, only the entry block starts at an instruction. -/
theorem blockAt?_start (body : Body) (supply : VarSupply) (index : Nat) :
    (Draft.start body supply).1.blockAt? index =
      if index = 0 ∧ index < body.code.size then some Flow.entry else none := by
  unfold blockAt?
  change ((Array.replicate body.code.size none).modify 0 fun _ => some Flow.entry)[index]?.getD none = _
  rw [Array.getElem?_modify]
  rcases Nat.eq_zero_or_pos index with rfl | hpos
  · by_cases hlt : 0 < body.code.size <;> simp [hlt]
  · by_cases hlt : index < body.code.size <;> simp [hlt, Nat.ne_of_lt hpos, Nat.ne_of_gt hpos]

/-- The draft of a body that has not been entered: its blocks are in order. -/
theorem mapped_start (body : Body) (supply : VarSupply) :
    (Draft.start body supply).1.Mapped body := by
  refine ⟨rfl, ?_, ?_, ?_, ?_, ?_⟩
  · change ((Array.replicate body.code.size none).modify 0 fun _ => some Flow.entry).size = _
    simp
  · change 1 < 2
    decide
  · intro index block h
    rw [blockAt?_start] at h
    split at h
    · cases h
      exact ⟨(by decide : 0 < 2), by decide⟩
    · cases h
  · intro first second block h₁ h₂
    rw [blockAt?_start] at h₁ h₂
    split at h₁ <;> split at h₂ <;> simp_all
  · intro hpos
    rw [blockAt?_start, if_pos ⟨rfl, hpos⟩]

end Draft

end GuardedFlow
