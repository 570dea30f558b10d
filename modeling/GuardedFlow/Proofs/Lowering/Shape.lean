import GuardedFlow.Proofs.Lowering.Exits

/-!
# The shape of a control-flow graph

A pass leaves each block once: by a jump, by the end of its path, or where the block of the next
instruction begins. The invariant is that the blocks of the instructions ahead have no outgoing edges
yet, and that the open block, which has none either, does not start at one of them, except at the very
next one. It does not depend on what the oracle counts, so `Session.flowOf_shaped` holds of every
lowering.
-/

namespace GuardedFlow

/-- The edges that may leave a block: none, one without a guard, or two to different blocks with
complementary guards. -/
inductive Exits (block : BlockId) : List (Link Guard) → Prop where
  | stop : Exits block []
  | jump (target : BlockId) : Exits block [⟨block, target, none⟩]
  | branch (condition : Expr) {target other : BlockId} (hne : target ≠ other) :
      Exits block [⟨block, target, some condition⟩, ⟨block, other, some (.unary .not condition)⟩]

/-- The edges of a block lead to different blocks. -/
theorem Exits.nodup {block : BlockId} {links : List (Link Guard)} (h : Exits block links) :
    (links.map Link.target).Nodup := by
  cases h with
  | stop => exact List.nodup_nil
  | jump target => exact List.nodup_singleton target
  | branch condition hne => simpa using hne

/-- What every control-flow graph has in common. -/
structure Shaped (flow : Flow) : Prop where
  /-- Two blocks are joined by at most one edge in each direction. -/
  single : (flow.graph.edges.toList.map fun link => (link.source, link.target)).Nodup
  /-- The sink holds no statement. -/
  sink : ∃ block, flow.graph.node? Flow.sink = some block ∧ block.stmts = #[]
  /-- No edge leaves the sink. -/
  final : flow.graph.outgoing Flow.sink = []
  /-- Every other block ends its path, jumps, or branches. -/
  exits : ∀ block, flow.graph.hasNode block → block ≠ Flow.sink →
    Exits block ((flow.graph.outgoing block).map (·.2))

namespace Draft

/-- The draft of a pass that comes to the instruction `first` next: every block but the sink starts at
some instruction, and no edge leaves the sink or a block that starts at `first` or later. -/
structure Awaits (body : Body) (first : Nat) (d : Draft) : Prop where
  mapped : d.Mapped body
  consistent : d.graph.Consistent
  sinkStmts : d.graph.stmtsAt Flow.sink = []
  sinkLinks : d.graph.linksFrom Flow.sink = []
  owned : 0 < body.code.size → ∀ block < d.graph.nodeCount, block ≠ Flow.sink →
    ∃ index, d.blockAt? index = some block
  ahead : ∀ index block, first ≤ index → d.blockAt? index = some block →
    d.graph.linksFrom block = []

/-- A block, but not the sink, that starts at no instruction from `first` on. -/
structure Behind (first : Nat) (block : BlockId) (d : Draft) : Prop where
  lt : block < d.graph.nodeCount
  ne : block ≠ Flow.sink
  starts : ∀ index, first ≤ index → d.blockAt? index ≠ some block

/-- What is behind an instruction is behind the next one. -/
theorem Behind.later {first : Nat} {block : BlockId} {d : Draft} (h : d.Behind first block) :
    d.Behind (first + 1) block :=
  { h with starts := fun index hindex => h.starts index (Nat.le_of_succ_le hindex) }

namespace Located

variable {d e : Draft} {index first : Nat} {block source : BlockId} {body : Body}

/-- A request for a block adds no edges. -/
theorem linksFrom (h : d.Located index block e) (n : BlockId) :
    e.graph.linksFrom n = d.graph.linksFrom n := by
  cases h <;> rfl

/-- A request for a block takes none away. -/
theorem nodeCount (h : d.Located index block e) : d.graph.nodeCount ≤ e.graph.nodeCount :=
  (h.extended block).nodeCount

/-- The block that was asked for is a block of the graph, but not the sink. -/
theorem valid (h : d.Located index block e) (hd : d.Mapped body) :
    block < e.graph.nodeCount ∧ block ≠ Flow.sink := by
  cases h with
  | old _ hold => exact hd.valid index block hold
  | new label hnew =>
    have hcount : (d.graph.addNode (Block.new label)).2.nodeCount = d.graph.nodeCount + 1 :=
      Array.size_push _
    exact ⟨hcount ▸ Nat.lt_succ_self _, (Nat.ne_of_lt hd.sink).symm⟩

/-- A new block is none of the old ones. -/
theorem behind (h : d.Located index block e) (hsource : d.Behind first source) :
    e.Behind first source := by
  refine ⟨Nat.lt_of_lt_of_le hsource.lt h.nodeCount, hsource.ne, fun i hi => ?_⟩
  cases h with
  | old _ _ => exact hsource.starts i hi
  | new label hnew =>
    rw [blockAt?_modify]
    split
    · intro heq
      cases heq
      exact Nat.lt_irrefl _ hsource.lt
    · exact hsource.starts i hi

/-- Two instructions start different blocks, whatever edges are added between the requests for them. -/
theorem ne (h : d.Located index block e) (hd : d.Mapped body) (hindex : index < body.code.size)
    {graph : Graph Block Guard} {f : Draft} {next : Nat} {other : BlockId}
    (hgraph : Draft.Mapped body { e with graph }) (h' : Draft.Located { e with graph } next other f)
    (hnext : next < body.code.size) (hne : index ≠ next) : block ≠ other := by
  rintro rfl
  have hfound : e.blockAt? index = some block := h.found (hd.size ▸ hindex)
  have hfound' : f.blockAt? next = some block := h'.found (hgraph.size ▸ hnext)
  exact hne ((h'.mapped hgraph).injective index next block (h'.kept hfound) hfound')

/-- A request for a block keeps the adjacency lists right. -/
theorem consistent (h : d.Located index block e) (hd : d.graph.Consistent) : e.graph.Consistent := by
  cases h with
  | old _ _ => exact hd
  | new label _ => exact hd.addNode _

/-- A request for a block of the stream leaves the blocks ahead without outgoing edges. -/
theorem awaits (h : d.Located index block e) (hd : d.Awaits body first)
    (hindex : index < body.code.size) : e.Awaits body first := by
  have hfound : e.blockAt? index = some block := h.found (hd.mapped.size ▸ hindex)
  refine ⟨h.mapped hd.mapped, h.consistent hd.consistent, ?_, ?_, fun hpos other hlt hne => ?_,
    fun i other hi hother => ?_⟩
  · rw [(h.extended block).stmts, hd.sinkStmts, ite_self, List.append_nil]
  · rw [h.linksFrom, hd.sinkLinks]
  · by_cases hother : other = block
    · exact ⟨index, hother ▸ hfound⟩
    · have hlt : other < d.graph.nodeCount := by
        cases h with
        | old _ _ => exact hlt
        | new label _ =>
          have hcount : (d.graph.addNode (Block.new label)).2.nodeCount = d.graph.nodeCount + 1 :=
            Array.size_push _
          have hlt : other < (d.graph.addNode (Block.new label)).2.nodeCount := hlt
          rw [hcount] at hlt
          exact Nat.lt_of_le_of_ne (Nat.le_of_lt_succ hlt) hother
      obtain ⟨i, hi⟩ := hd.owned hpos other hlt hne
      exact ⟨i, h.kept hi⟩
  · rw [h.linksFrom]
    cases h with
    | old _ _ => exact hd.ahead i other hi hother
    | new label hnew =>
      rw [blockAt?_modify] at hother
      split at hother
      · cases hother
        exact hd.consistent.linksFrom_of_le (Nat.le_refl _)
      · exact hd.ahead i other hi hother

end Located

namespace Awaits

variable {d e : Draft} {body : Body} {first : Nat} {source target : BlockId}

/-- Only the body, the graph and the map of blocks count. -/
theorem congr (h : d.Awaits body first) (hbody : e.body = d.body) (hstarts : e.starts = d.starts)
    (hgraph : e.graph = d.graph) : e.Awaits body first := by
  have hsame := ((Extends.refl d Flow.entry).congr hbody hstarts hgraph).mapped body h.mapped
  have hblockAt (index : Nat) : e.blockAt? index = d.blockAt? index := by simp only [blockAt?, hstarts]
  refine ⟨hsame, hgraph ▸ h.consistent, hgraph ▸ h.sinkStmts, hgraph ▸ h.sinkLinks, ?_, ?_⟩
  · simpa only [hblockAt, hgraph] using h.owned
  · simpa only [hblockAt, hgraph] using h.ahead

/-- When the pass goes on, fewer instructions are ahead. -/
theorem later (h : d.Awaits body first) : d.Awaits body (first + 1) :=
  { h with ahead := fun index block hindex => h.ahead index block (Nat.le_of_succ_le hindex) }

/-- Statements go to a block other than the sink. -/
theorem extend (h : d.Awaits body first) (hsource : d.Behind (first + 1) source) (out : List Stmt) :
    Awaits body first { d with graph := d.graph.extend source out } where
  mapped := (Extends.of_extend hsource.lt out).mapped body h.mapped
  consistent := h.consistent.modifyNode ..
  sinkStmts := by
    rw [Graph.stmtsAt_extend hsource.lt, h.sinkStmts, if_neg hsource.ne.symm, List.append_nil]
  sinkLinks := h.sinkLinks
  owned hpos block hlt := h.owned hpos block (Nat.lt_of_lt_of_eq hlt (Array.size_modify ..))
  ahead := h.ahead

/-- An edge from a block behind leaves the blocks ahead without outgoing edges. -/
theorem link (h : d.Awaits body first) (hsource : d.Behind first source)
    (htarget : target < d.graph.nodeCount) (guard : Guard) :
    Awaits body first { d with graph := d.graph.link source target guard } where
  mapped := (Extends.of_link d Flow.entry source target guard).mapped body h.mapped
  consistent := h.consistent.link hsource.lt htarget guard
  sinkStmts := h.sinkStmts
  sinkLinks := by rw [Graph.linksFrom_link, h.sinkLinks, if_neg hsource.ne, List.append_nil]
  owned := h.owned
  ahead index block hindex hblock := by
    have hne : source ≠ block := by
      rintro rfl
      exact hsource.starts index hindex hblock
    rw [Graph.linksFrom_link, h.ahead index block hindex hblock, if_neg hne, List.append_nil]

end Awaits

/-- The draft of a body that has not been entered awaits all of its instructions. -/
theorem awaits_start (body : Body) (supply : VarSupply) :
    (Draft.start body supply).1.Awaits body 0 where
  mapped := mapped_start body supply
  consistent := (Graph.consistent_empty.addNode _).addNode _
  sinkStmts := rfl
  sinkLinks := rfl
  owned hpos block hlt hne := by
    have hlt : block < 2 := hlt
    have hentry : block = Flow.entry := by
      change block ≠ 1 at hne
      change block = 0
      omega
    exact ⟨0, hentry ▸ (mapped_start body supply).entry hpos⟩
  ahead _ _ _ _ := rfl

end Draft

namespace LoweringState

/-- A pass that comes to the instruction `first` next, or is lowering it: the blocks that were left
were left in one of the possible ways, and the open one was not left yet. -/
structure Pending (body : Body) (first : Nat) (s : LoweringState) : Prop where
  awaits : s.draft.Awaits body first
  exits : ∀ block, Exits block (s.draft.graph.linksFrom block)
  openBlock : ∀ block, s.openBlock = some block →
    s.draft.Behind (first + 1) block ∧ s.draft.graph.linksFrom block = []

namespace Pending

variable {body : Body} {first : Nat} {s t : LoweringState} {block : BlockId}

/-- A state with an instruction pending is ready for it. -/
theorem ready (h : s.Pending body first) : s.Ready where
  consistent := h.awaits.consistent
  sink := h.awaits.mapped.sink
  openBlock block hopen := ⟨(h.openBlock block hopen).1.lt, (h.openBlock block hopen).2⟩

/-- Leaving a block adds edges of one of the possible forms. -/
theorem exits_of_left {g k : Graph Block Guard} {links : List (Link Guard)}
    (h : ∀ other, Exits other (g.linksFrom other)) (hfree : g.linksFrom block = [])
    (hlinks : Exits block links)
    (hleft : ∀ other, k.linksFrom other = g.linksFrom other ++ if block = other then links else []) :
    ∀ other, Exits other (k.linksFrom other) := by
  intro other
  rw [hleft]
  by_cases hother : block = other
  · subst hother
    rw [hfree, if_pos rfl]
    exact hlinks
  · rw [if_neg hother, List.append_nil]
    exact h other

/-- Statements without an end of the path leave everything as it is. -/
theorem emits (h : s.Pending body first) {out : List Stmt} (hemits : Emits s out none t)
    (hopen : s.openBlock = some block) : t.Pending body first := by
  obtain ⟨hbehind, hfree⟩ := h.openBlock block hopen
  have hgraph := hemits.graph
  rw [hopen] at hgraph
  have hstill : t.openBlock = some block := hemits.openBlock.trans hopen
  have hcount := hemits.nodeCount
  refine ⟨(h.awaits.extend hbehind out).congr hemits.body hemits.starts hgraph, ?_, ?_⟩
  · rw [hgraph]
    exact h.exits
  · intro other hother
    rw [hstill] at hother
    cases hother
    refine ⟨⟨hcount ▸ hbehind.lt, hbehind.ne, fun index hindex => ?_⟩, hgraph ▸ hfree⟩
    rw [Draft.blockAt?, hemits.starts]
    exact hbehind.starts index hindex

/-- A pass goes on from the open block. -/
theorem later (h : s.Pending body first) : s.Pending body (first + 1) where
  awaits := h.awaits.later
  exits := h.exits
  openBlock block hopen := by
    obtain ⟨hbehind, hfree⟩ := h.openBlock block hopen
    exact ⟨hbehind.later, hfree⟩

/-- A step between two jumps lowers an instruction as a whole. -/
theorem emitted (h : s.Pending body first) {out : List Stmt} {fin : Option PathEnd}
    (hemits : Emits s out fin t) (hopen : s.openBlock = some block) : t.Pending body (first + 1) := by
  cases fin with
  | none => exact (h.emits hemits hopen).later
  | some fin =>
    obtain ⟨hbehind, hfree⟩ := h.openBlock block hopen
    have hgraph := hemits.graph
    rw [hopen] at hgraph
    have hclosed : t.openBlock = none := hemits.openBlock
    have hextend := h.awaits.later.extend hbehind.later out
    cases fin with
    | halt =>
      refine ⟨hextend.congr hemits.body hemits.starts hgraph, hgraph ▸ h.exits, ?_⟩
      intro other hother
      rw [hclosed] at hother
      cases hother
    | leave =>
      have hcount : (s.draft.graph.extend block out).nodeCount = s.draft.graph.nodeCount :=
        Array.size_modify ..
      have hsource : Draft.Behind (first + 1) block
          { s.draft with graph := s.draft.graph.extend block out } :=
        ⟨hcount ▸ hbehind.lt, hbehind.ne, hbehind.starts⟩
      have hlink := hextend.link hsource hextend.mapped.sink none
      refine ⟨hlink.congr hemits.body hemits.starts hgraph, ?_, ?_⟩
      · rw [hgraph]
        exact exits_of_left h.exits hfree (.jump Flow.sink) fun other =>
          Graph.linksFrom_link _ block Flow.sink none other
      · intro other hother
        rw [hclosed] at hother
        cases hother

/-- A jump leaves the open block by one edge. -/
theorem goto (h : s.Pending body first) {target : Nat} (hrun : Lower.goto target s = .ok () t) :
    t.Pending body (first + 1) := by
  obtain ⟨hlt, source, other, d, hopen, hlocated, rfl⟩ := Lower.goto_ok hrun
  obtain ⟨hbehind, hfree⟩ := h.openBlock source hopen
  have hawaits := hlocated.awaits h.awaits.later (h.awaits.mapped.lowers ▸ hlt)
  obtain ⟨hother, -⟩ := hlocated.valid h.awaits.mapped
  refine ⟨hawaits.link (hlocated.behind hbehind) hother none, ?_, fun block hblock => by cases hblock⟩
  exact exits_of_left h.exits hfree (.jump other) fun block => by
    rw [Graph.linksFrom_link, hlocated.linksFrom]

/-- A conditional jump leaves the open block by two edges, or not at all. -/
theorem branch (h : s.Pending body first) {condition : Value} {target : Nat}
    (hopen : s.openBlock = some block)
    (hrun : Lower.branch first condition target s = .ok () t) : t.Pending body (first + 1) := by
  obtain ⟨hlt, guard, u, hguard, hrest⟩ := Lower.branch_ok hrun
  obtain ⟨out, hemits, -⟩ := (Lower.operand_ends condition).ok rfl hguard
  rcases hrest with ⟨-, rfl⟩ | ⟨hnext, source, other, d, hsource, hlocated, hrest⟩
  · exact h.emitted hemits hopen
  · have hnone := (hemits.still_open hsource).1
    rw [hnone] at hemits
    have hu := h.emits hemits hopen
    have hbody : u.draft.body = body := hu.awaits.mapped.lowers
    obtain ⟨hbehind, hfree⟩ := hu.openBlock source hsource
    obtain ⟨hother, hsink⟩ := hlocated.valid hu.awaits.mapped
    have htarget : target < body.code.size := by
      rw [← hbody, hemits.body]
      exact hlt
    have hfirst := (hlocated.awaits hu.awaits.later htarget).link (hlocated.behind hbehind) hother (some guard)
    have hbehind' : Draft.Behind (first + 1) source
        { d with graph := d.graph.link source other (some guard) } :=
      ⟨(hlocated.behind hbehind).lt, hbehind.ne, (hlocated.behind hbehind).starts⟩
    rcases hrest with ⟨-, rfl⟩ | ⟨next, rest, e, hsome, hlocated', rfl⟩
    · refine ⟨hfirst.link hbehind' hfirst.mapped.sink _, ?_, fun c hc => by cases hc⟩
      exact exits_of_left hu.exits hfree (.branch guard hsink) fun c => by
        rw [Graph.linksFrom_link, Graph.linksFrom_link, hlocated.linksFrom]
        by_cases hc : source = c <;> simp [hc, Expr.not]
    · obtain ⟨rfl, hlt'⟩ := Body.next?_eq_some.mp (hbody ▸ hsome)
      obtain ⟨hrest, hsink'⟩ := hlocated'.valid hfirst.mapped
      have hsecond := hlocated'.awaits hfirst hlt'
      have hfound' : e.blockAt? (first + 1) = some rest := hlocated'.found (by
        rw [hfirst.mapped.size]
        exact hlt')
      have hne : other ≠ rest :=
        hlocated.ne hu.awaits.mapped htarget hfirst.mapped hlocated' hlt' fun heq => hnext (heq ▸ hsome)
      have hsource' : source ≠ rest := by
        rintro rfl
        exact (hlocated'.behind hbehind').starts (first + 1) (Nat.le_refl _) hfound'
      refine ⟨hsecond.link (hlocated'.behind hbehind') hrest _, ?_, fun c hc => ?_⟩
      · exact exits_of_left hu.exits hfree (.branch guard hne) fun c => by
          rw [Graph.linksFrom_link, hlocated'.linksFrom, Graph.linksFrom_link, hlocated.linksFrom]
          by_cases hc : source = c <;> simp [hc, Expr.not]
      · cases hc
        refine ⟨⟨hrest, hsink', fun index hindex hstarts => ?_⟩, ?_⟩
        · have := hsecond.mapped.injective _ _ rest hstarts hfound'
          omega
        · change (e.graph.link source rest (some guard.not)).linksFrom rest = []
          rw [Graph.linksFrom_link, if_neg hsource', List.append_nil]
          exact hsecond.ahead (first + 1) rest (Nat.le_refl _) hfound'

/-- An operation leaves its block at most once. -/
theorem operation (h : s.Pending body first) (hopen : s.openBlock = some block) {op : Op Nat}
    (hrun : Lower.operation first op s = .ok () t) : t.Pending body (first + 1) := by
  have hplain (hjump : op.jumpTargets = []) : t.Pending body (first + 1) := by
    obtain ⟨out, hemits, -⟩ := (Lower.operation_ends first op hjump).ok rfl hrun
    exact h.emitted hemits hopen
  cases op with
  | goto target => exact h.goto hrun
  | branch condition target => exact h.branch hopen hrun
  | tableSwitch | lookupSwitch => cases hrun
  | _ => exact hplain rfl

/-- Entering an instruction leaves the open block, if that is not the block of the instruction. -/
theorem enter (h : s.Pending body first) (hlt : first < body.code.size) {oracle : PredecessorOracle}
    (hrun : Lower.enter oracle first s = .ok () t) :
    t.Pending body first ∧ ∃ block, t.openBlock = some block := by
  have hmoved : (s.draft.moveTo first).Awaits body first := h.awaits.congr rfl rfl rfl
  have hsize : first < (s.draft.moveTo first).starts.size := hmoved.mapped.size ▸ hlt
  have hopened {block : BlockId} {d : Draft} (hd : d.Awaits body first)
      (hstarts : d.blockAt? first = some block) :
      d.Behind (first + 1) block ∧ d.graph.linksFrom block = [] := by
    obtain ⟨hvalid, hsink⟩ := hd.mapped.valid first block hstarts
    refine ⟨⟨hvalid, hsink, fun index hindex hother => ?_⟩, hd.ahead first block (Nat.le_refl _) hstarts⟩
    have := hd.mapped.injective index first block hother hstarts
    omega
  rcases Lower.enter_ok hrun with ⟨hclosed, block, d, hlocated, rfl⟩ | ⟨block, hopen, rfl, -⟩ |
    ⟨source, block, d, hopen, hlocated, hother, -, rfl⟩
  · have hawaits := hlocated.awaits hmoved hlt
    refine ⟨⟨hawaits, fun c => ?_, fun c hc => ?_⟩, block, rfl⟩
    · rw [hlocated.linksFrom]
      exact h.exits c
    · cases hc
      exact hopened hawaits (hlocated.found hsize)
  · refine ⟨⟨hmoved, h.exits, fun c hc => ?_⟩, block, hopen⟩
    obtain ⟨⟨hvalid, hsink, hstarts⟩, hfree⟩ := h.openBlock c hc
    exact ⟨⟨hvalid, hsink, hstarts⟩, hfree⟩
  · obtain ⟨⟨hvalid, hsink, hstarts⟩, hfree⟩ := h.openBlock source hopen
    have hbehind : (s.draft.moveTo first).Behind first source := by
      refine ⟨hvalid, hsink, fun index hindex => ?_⟩
      rcases Nat.eq_or_lt_of_le hindex with rfl | hindex
      · exact hother
      · exact hstarts index hindex
    have hawaits := hlocated.awaits hmoved hlt
    have hfound := hlocated.found hsize
    have hne : source ≠ block := by
      rintro rfl
      exact (hlocated.behind hbehind).starts first (Nat.le_refl _) hfound
    have hlink := hawaits.link (hlocated.behind hbehind) (hlocated.valid hmoved.mapped).1 none
    refine ⟨⟨hlink, ?_, fun c hc => ?_⟩, block, rfl⟩
    · exact exits_of_left h.exits hfree (.jump block) fun c => by
        rw [Graph.linksFrom_link, hlocated.linksFrom]
        rfl
    · cases hc
      exact hopened hlink hfound

/-- A pass over instructions in order comes to the one after them. -/
theorem instructions {oracle : PredecessorOracle} {instrs : List Instr}
    (h : s.Pending body first) (hcode : body.code.toList.drop first = instrs)
    (hrun : Lower.instructions oracle instrs first s = .ok () t) :
    t.Pending body (first + instrs.length) := by
  induction instrs generalizing first s with
  | nil =>
    cases hrun
    exact h
  | cons instr rest ih =>
    obtain ⟨_, left, hinstr, hrest⟩ := Lower.bind_ok hrun
    obtain ⟨_, entered, henter, hop⟩ := Lower.bind_ok hinstr
    obtain ⟨hget, hdrop, -⟩ := body.code_of_drop hcode
    obtain ⟨hlt, -⟩ := Array.getElem?_eq_some_iff.mp hget
    obtain ⟨hentered, block, hopen⟩ := h.enter hlt henter
    have hend := ih (hentered.operation hopen hop) hdrop hrest
    rw [List.length_cons, Nat.add_comm rest.length, ← Nat.add_assoc]
    exact hend

/-- Closing the stream leaves the open block, or the entry of an empty body. -/
theorem close (h : s.Pending body first) (hempty : body.code.isEmpty → s.draft.graph.edges = #[])
    (hrun : Lower.close body s = .ok () t) :
    t.draft.Awaits body (first + 1) ∧ ∀ block, Exits block (t.draft.graph.linksFrom block) := by
  have hsink := h.awaits.mapped.sink
  rcases Lower.close_ok hrun with ⟨hnone, rfl⟩ | ⟨-, -, rfl⟩ | ⟨-, source, hopen, rfl⟩
  · have hsize : body.code.size = 0 := by simpa [Array.isEmpty_iff_size_eq_zero] using hnone
    have hentry : s.draft.Behind (first + 1) Flow.entry := by
      refine ⟨Nat.lt_of_succ_lt hsink, by decide, fun index _ hstarts => ?_⟩
      have := h.awaits.mapped.lt hstarts
      omega
    have hfree : s.draft.graph.linksFrom Flow.entry = [] := by
      rw [Graph.linksFrom, hempty hnone]
      rfl
    exact ⟨h.awaits.later.link hentry hsink none,
      exits_of_left h.exits hfree (.jump Flow.sink) (Graph.linksFrom_link _ _ _ _)⟩
  · exact ⟨h.awaits.later, h.exits⟩
  · obtain ⟨hbehind, hfree⟩ := h.openBlock source hopen
    exact ⟨h.awaits.later.link hbehind hsink none,
      exits_of_left h.exits hfree (.jump Flow.sink) (Graph.linksFrom_link _ _ _ _)⟩

end Pending

end LoweringState

/-- A pass leaves every block in one of the possible ways. -/
theorem Passes.shaped {body : Body} {oracle : PredecessorOracle} {index : Nat} {s t : LoweringState}
    {vs : List Visit} {block : BlockId} (h : Passes body oracle index s vs t) (hs : s.Pending body index)
    (hopen : s.openBlock = some block) :
    t.draft.Awaits body (body.code.size + 1) ∧ ∀ other, Exits other (t.draft.graph.linksFrom other) := by
  induction h generalizing block with
  | last hinstr hlast hrun hclose =>
    rw [hlast]
    refine (hs.operation hopen hrun).close (fun hempty => ?_) hclose
    rw [Array.isEmpty_iff_size_eq_zero] at hempty
    omega
  | step hinstr hnext hrun henter hrest ih =>
    obtain ⟨hnext', other, hopen'⟩ := (hs.operation hopen hrun).enter hnext henter
    exact ih hnext' hopen'

namespace Session

/-- A lowering starts before the first instruction, and no edge leaves any block. -/
theorem pending_startOf (body : Body) (p : Program) : (startOf body p).Pending body 0 where
  awaits := Draft.awaits_start body p.supply
  exits _ := .stop
  openBlock _ hopen := by cases hopen

/-- After a pass over the whole stream its end is pending. A pass over an empty stream has drawn no
edges. -/
theorem pending_passed {body : Body} {oracle : PredecessorOracle} {p : Program} {t : LoweringState}
    (hrun : Lower.instructions oracle body.code.toList 0 (startOf body p) = .ok () t) :
    t.Pending body (0 + body.code.toList.length) ∧
      (body.code.isEmpty → t.draft.graph.edges = #[]) := by
  refine ⟨(pending_startOf body p).instructions rfl hrun, fun hempty => ?_⟩
  have hcode : body.code.toList = [] := by simpa using hempty
  rw [hcode] at hrun
  cases hrun
  rfl

/-- Every control-flow graph is well shaped, whatever the oracle counts. -/
theorem flowOf_shaped (body : Body) (oracle : PredecessorOracle) (p : Program) {flow : Flow}
    {q : Program} (h : flowOf body oracle p = .ok flow q) : Shaped flow := by
  obtain ⟨t, hstream, rfl, rfl⟩ := flowOf_ok h
  obtain ⟨_, u, hrun, hclose⟩ := Lower.bind_ok hstream
  have hpassed := (pending_startOf body p).instructions rfl hrun
  obtain ⟨hawaits, hexits⟩ := hpassed.close (fun hempty => by
    have hcode : body.code.toList = [] := by simpa using hempty
    rw [hcode] at hrun
    cases hrun
    rfl) hclose
  obtain ⟨sink, hsink⟩ : ∃ sink, t.draft.graph.node? Flow.sink = some sink :=
    ⟨_, Array.getElem?_eq_getElem hawaits.mapped.sink⟩
  refine ⟨Graph.nodup_ends _ fun n => (hexits n).nodup, ⟨sink, hsink, ?_⟩, ?_, fun block _ _ => ?_⟩
  · have hstmts := hawaits.sinkStmts
    simp only [Graph.stmtsAt, hsink] at hstmts
    exact Array.toList_eq_nil_iff.mp hstmts
  · have houtgoing := hawaits.consistent.outgoing_links Flow.sink
    rw [hawaits.sinkLinks] at houtgoing
    exact List.map_eq_nil_iff.mp houtgoing
  · change Exits block ((t.draft.graph.outgoing block).map (·.2))
    rw [hawaits.consistent.outgoing_links]
    exact hexits block

/-- A jump back to the second instruction. -/
def jumpBackExample : Body where
  method := ⟨"Loop", "wait", [.boolean], .prim .void⟩
  isStatic := true
  isSynchronized := false
  locals := #[⟨"again", .boolean⟩]
  code := #[⟨.nop, .unknown⟩, ⟨.branch (.slot 0) 1, .unknown⟩, ⟨.retVoid, .unknown⟩]

/-- An oracle that counts no predecessors does not see that the jump back needs a block of its own. The
graph is well shaped all the same. -/
theorem flowOf_shaped_jumpBack : ∃ flow q,
    flowOf jumpBackExample ⟨fun _ => 0⟩ (.new .standard) = .ok flow q ∧ Shaped flow := by
  obtain ⟨flow, h⟩ :=
    exists_ok (r := flowOf jumpBackExample ⟨fun _ => 0⟩ (.new .standard)) (by decide +kernel)
  exact ⟨flow, _, h, flowOf_shaped _ _ _ h⟩

end Session

end GuardedFlow
