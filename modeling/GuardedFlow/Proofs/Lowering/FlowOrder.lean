import GuardedFlow.Proofs.Lowering.InstructionOrder

/-!
# Control-flow graphs in order

A lowering that succeeds assembles its graph from the statements of instructions that were lowered in
order, and every guard is built from what may be read at the end of the instruction it belongs to:
`Session.flowOf_ordered`. Lowering starts in a state in which all numbers are different, and keeps it so.
-/

namespace GuardedFlow

namespace Session

variable {p : Program} {body : Body} {oracle : PredecessorOracle}

/-- No variable that a body declares has the number of a global. -/
theorem numbered_startOf (hp : p.Numbered) (body : Body) : (startOf body p).Numbered where
  program := hp.congr rfl (next_le_start body p.supply)
  apart v hv name w hw := by
    obtain ⟨count, hids⟩ := map_id_startOf body p
    have hmem : v.id ∈ List.range' p.supply.next count := hids ▸ List.mem_map_of_mem hv
    have hused := hp.used name w hw
    have hnext := (List.mem_range'_1.mp hmem).1
    omega

/-- A lowering starts within its program. -/
theorem within_startOf (hp : p.Named) (body : Body) : (startOf body p).Within p body :=
  ⟨.of_supply p _ _ (next_le_start body p.supply), rfl, proper_startOf hp body⟩

/-- All instructions that the lowering of a body gets done with are lowered in order, also if it fails
later. -/
theorem visits_ordered (hp : p.Sound) (body : Body) (oracle : PredecessorOracle) :
    ∀ v ∈ visits body oracle p,
      v.Ordered p body (startOf body p) (stateAfter (Lower.stream oracle body (startOf body p))) := by
  obtain ⟨hvisits, -, -⟩ := Lower.visits_ordered hp oracle
    (List.drop_zero (l := body.code.toList)) (standing_startOf body p) (within_startOf hp.named body)
    (numbered_startOf hp.numbered body)
  intro v hv
  obtain ⟨⟨index, hduring⟩, hnumbered, hadvances⟩ := hvisits v hv
  refine ⟨⟨index, { hduring with after := hduring.after.trans ?_ }⟩, hnumbered, hadvances⟩
  rw [Lower.stream, bind_run]
  cases Lower.instructions oracle body.code.toList 0 (startOf body p) with
  | error e t => exact .refl t
  | ok _ t => exact (Lower.Keeps.close body).after t

end Session

/-- A conditional jump evaluates its condition in its own block, and leaves it if the path goes on. -/
theorem Layout.Leaves.guarded {l : Layout} {body : Body} {index : Nat} {block : BlockId} {op : Op Nat}
    {entered : LoweringState} {links : List (Link Guard)}
    (h : l.Leaves body index block op entered links) {link : Link Guard} (hlink : link ∈ links)
    {guard : Expr} (hguard : guard ∈ link.payload) : link.source = block ∧ ∃ condition target e t,
      op = .branch condition target ∧ condition.pathEnd entered.program.idioms = none ∧
      Lower.operand condition entered = .ok e t ∧ (guard = e ∨ guard = e.not) := by
  rcases h.payload hlink with hnone | ⟨condition, target, e, t, rfl, hnext, hrun, hpayload⟩
  · simp [hnone] at hguard
  · rw [Leaves, if_neg hnext] at h
    obtain ⟨hpath, e', t', other, rest, -, -, -, rfl⟩ := h
    refine ⟨?_, condition, target, e, t, rfl, hpath, hrun, ?_⟩
    · rcases List.mem_pair.mp hlink with rfl | rfl <;> rfl
    · rw [Option.mem_def.mp hguard] at hpayload
      simpa using hpayload

/-- The condition of a conditional jump may be read at the end of its statements. -/
theorem Visit.Ordered.guard {p : Program} {body : Body} {s t : LoweringState} {v : Visit}
    (hp : p.Sound) (h : v.Ordered p body s t) (hs : s.Within p body) {condition : Value} {target : Nat} {e : Expr}
    {u : LoweringState} (hop : v.instr.op = .branch condition target)
    (hpath : condition.pathEnd v.entered.program.idioms = none)
    (hrun : Lower.operand condition v.entered = .ok e u) : e.Over (t.draft.Readable v.segment) := by
  obtain ⟨index, hduring⟩ := h.during
  obtain ⟨block, hopen⟩ := hduring.home
  have hleft := hduring.run
  rw [hop] at hleft
  have hsegment : v.segment = v.entered.appended u := by
    rcases Lower.jump_appended hduring.standing hopen hleft with hjump | ⟨_, hgoto, _⟩ |
      ⟨_, _, e', u', hbranch, hrun', happended, -⟩
    · simp [Op.jumpTargets] at hjump
    · cases hgoto
    · cases hbranch
      rw [hrun] at hrun'
      cases hrun'
      exact happended
  obtain ⟨e', u', hrun', hredirects⟩ := Lower.branch_redirects hleft
  rw [hrun] at hrun'
  cases hrun'
  obtain ⟨out, hemits, -⟩ := (Lower.operand_ends condition).ok rfl hrun
  have hstill : u.openBlock.isSome := by
    rw [hemits.openBlock, hpath, show v.entered.openBlock = some block from hopen]
    rfl
  obtain ⟨-, -, hheld⟩ := (Lower.operand_delivers hp condition _).from_start
    (hs.continues hduring.before) h.numbered hrun
  rw [hsegment]
  exact (hheld hstill).mono fun v hv => hv.mono (hredirects.continues.trans hduring.after) id

/-- A finished control-flow graph that was lowered in order. -/
structure Flow.InOrder (p : Program) (body : Body) (t : LoweringState) (vs : List Visit) (flow : Flow) :
    Prop where
  finished : flow = t.draft.finish
  proper : t.Proper
  numbered : t.Numbered
  visits : ∀ v ∈ vs, v.Ordered p body (Session.startOf body p) t
  separate : vs.Pairwise fun v w => v.left.program.supply.next ≤ w.entered.program.supply.next
  stmts : ∀ block, flow.graph.stmtsAt block = (vs.filter (·.home = some block)).flatMap Visit.segment
  guards : ∀ link ∈ flow.graph.edges, ∀ guard ∈ link.payload, ∃ v ∈ vs, v.home = some link.source ∧
    guard.Over (t.draft.Readable v.segment)

/-- Every lowering that succeeds gives a control-flow graph in order. -/
theorem Session.flowOf_ordered {body : Body} {oracle : PredecessorOracle} {p q : Program} {flow : Flow}
    (hp : p.Sound) (h : flowOf body oracle p = .ok flow q) :
    ∃ t, q = t.program ∧ flow.InOrder p body t (visits body oracle p) := by
  obtain ⟨t, hstream, hflow, rfl⟩ := flowOf_ok h
  obtain ⟨_, _, -, hassembled⟩ := flowOf_assembled hp.named h
  have hwithin := within_startOf hp.named body
  have hordered := visits_ordered hp body oracle
  rw [hstream] at hordered
  obtain ⟨-, hseparate, hfinal⟩ := Lower.visits_ordered hp oracle
    (List.drop_zero (l := body.code.toList)) (standing_startOf body p) hwithin
    (numbered_startOf hp.numbered body)
  obtain ⟨_, u, hinstructions, hclose⟩ := Lower.bind_ok hstream
  have hkeeps := (Lower.Keeps.stream oracle body).ok hstream
  refine ⟨t, rfl, hflow, hkeeps.proper hwithin.proper,
    (Lower.close_redirects hclose).numbered (hfinal u hinstructions), hordered, hseparate,
    hassembled.stmts, fun link hlink guard hguard => ?_⟩
  -- an edge with a guard leaves a conditional jump, whose condition was lowered by its own visit
  rcases hassembled.exit_of_link hlink with hnone | ⟨before, v, after, block, links, hvs, hhome, hmem, hleaves⟩
  · simp [hnone] at hguard
  · have hv : v ∈ visits body oracle p := by simp [hvs]
    obtain ⟨hsource, condition, target, e, u, hop, hpath, hrun, he⟩ := hleaves.guarded hmem hguard
    have hover := (hordered v hv).guard hp hwithin hop hpath hrun
    refine ⟨v, hv, hsource ▸ hhome, ?_⟩
    rcases he with rfl | rfl <;> exact hover

/-! ### Statements of a graph -/

/-- The variables of a method: its result, its receiver, its parameters, and its locals with temporaries
and the caught exception. -/
def Flow.variables (flow : Flow) : List Var :=
  flow.result.toList ++ flow.receiver.toList ++ flow.params.toList ++ flow.locals.toList

namespace Flow

/-- The variable stands somewhere in a statement or in a guard. -/
def Mentions (flow : Flow) (v : Var) : Prop :=
  (∃ entry ∈ flow.statements, v ∈ entry.2.kind.mentions) ∨
    ∃ link ∈ flow.graph.edges, ∃ guard ∈ link.payload, v ∈ guard.occurrences

/-- The statements of a graph are those of its blocks. -/
theorem mem_statements {flow : Flow} {block : BlockId} {stmt : Stmt} :
    (block, stmt) ∈ flow.statements ↔ stmt ∈ flow.graph.stmtsAt block := by
  simp only [statements, Graph.nodeList, List.mem_flatMap, List.mem_map, Prod.exists, Prod.mk.injEq,
    List.mem_zipIdx_iff_getElem?, Graph.stmtsAt, Graph.node?]
  constructor
  · rintro ⟨_, b, ⟨_, _, hget, rfl, rfl⟩, s, hs, rfl, rfl⟩
    rw [← Array.getElem?_toList, hget]
    exact hs
  · intro hs
    cases hget : flow.graph.nodes[block]? with
    | none => simp [hget] at hs
    | some b =>
      rw [hget] at hs
      exact ⟨block, b, ⟨b, block, by rw [Array.getElem?_toList, hget], rfl, rfl⟩, stmt, hs, rfl, rfl⟩

/-- What holds of any two statements of one block and of any two blocks holds of all statements. -/
theorem pairwise_statements {flow : Flow} {R : Stmt → Stmt → Prop}
    (hblock : ∀ block, (flow.graph.stmtsAt block).Pairwise R)
    (hblocks : ∀ block other, block ≠ other → ∀ s ∈ flow.graph.stmtsAt block,
      ∀ t ∈ flow.graph.stmtsAt other, R s t) :
    flow.statements.Pairwise fun first second => R first.2 second.2 := by
  have hget {b : Block} {block : BlockId} (hmem : (b, block) ∈ flow.graph.nodes.toList.zipIdx) :
      b.stmts.toList = flow.graph.stmtsAt block := by
    rw [List.mem_zipIdx_iff_getElem?, Array.getElem?_toList] at hmem
    rw [Graph.stmtsAt, Graph.node?, hmem]
    rfl
  rw [statements, Graph.nodeList, List.flatMap_map, List.pairwise_flatMap]
  constructor
  · rintro ⟨b, block⟩ hmem
    exact List.pairwise_map.mpr (hget hmem ▸ hblock block)
  · have hnumbers : (flow.graph.nodes.toList.zipIdx.map Prod.snd).Nodup := by
      rw [List.zipIdx_map_snd]
      exact List.nodup_range' 1
    refine List.Pairwise.imp_of_mem ?_ (List.pairwise_map.mp hnumbers)
    rintro ⟨b, block⟩ ⟨b', other⟩ hmem hmem' hne x hx y hy
    obtain ⟨s, hs, rfl⟩ := List.mem_map.mp hx
    obtain ⟨s', hs', rfl⟩ := List.mem_map.mp hy
    exact hblocks block other hne s (hget hmem ▸ hs) s' (hget hmem' ▸ hs')

end Flow

/-- Every statement of an orderly sequence is in normal form, and reads what those before it have set. -/
theorem Orderly.conforms {first : Nat} {t : LoweringState} {done out pre post : List Stmt}
    {accesses : List Access} {stmt : Stmt} (h : Orderly first t done accesses out)
    (hout : out = pre ++ stmt :: post) : stmt.kind.Conforms t.program (t.draft.Readable (done ++ pre))
      (t.draft.Writable first (done ++ pre)) := by
  induction h generalizing pre with
  | nil => simp at hout
  | @plain done stmt' accesses out hstmt _ ih =>
    cases pre with
    | nil =>
      cases hout
      rw [List.append_nil]
      exact .inl hstmt
    | cons other pre =>
      cases hout
      have hrest := ih rfl
      rwa [List.append_assoc] at hrest
  | @access done access stmt' accesses out hstmt _ ih =>
    cases pre with
    | nil =>
      cases hout
      rw [List.append_nil]
      exact .inr ⟨access, hstmt⟩
    | cons other pre =>
      cases hout
      have hrest := ih rfl
      rwa [List.append_assoc] at hrest

/-- The statements of a visit, seen from the end of the lowering. -/
theorem Visit.Ordered.orderly {p : Program} {body : Body} {s t : LoweringState} {v : Visit}
    (h : v.Ordered p body s t) :
    Orderly v.entered.program.supply.next t [] (v.instr.op.accesses p body) v.segment :=
  let ⟨_, hduring⟩ := h.during
  h.advances.orderly.mono hduring.after

namespace Flow.InOrder

variable {p : Program} {body : Body} {t : LoweringState} {vs : List Visit} {flow : Flow}
  {block : BlockId}

/-- A statement of a block stands in the segment of a visit of that block, after those of earlier
visits. -/
theorem split (h : flow.InOrder p body t vs) {before after : List Stmt} {stmt : Stmt}
    (hstmts : flow.graph.stmtsAt block = before ++ stmt :: after) :
    ∃ v ∈ vs, v.home = some block ∧ ∃ earlier pre post, before = earlier ++ pre ∧
      v.segment = pre ++ stmt :: post ∧ stmt.kind.Conforms t.program (t.draft.Readable pre)
        (t.draft.Writable v.entered.program.supply.next pre) := by
  rw [h.stmts] at hstmts
  obtain ⟨first, v, rest, pre, post, hfilter, hsegment, rfl⟩ := flatMap_split hstmts
  have hmem : v ∈ vs.filter (·.home = some block) := by simp [hfilter]
  obtain ⟨hv, hhome⟩ := List.mem_filter.mp hmem
  have hbefore : before = first.flatMap Visit.segment ++ pre := by
    rw [hfilter, List.flatMap_append, List.flatMap_cons, hsegment] at hstmts
    have hall : (first.flatMap Visit.segment ++ pre) ++ stmt :: (post ++ rest.flatMap Visit.segment) =
        before ++ stmt :: (post ++ rest.flatMap Visit.segment) := by
      rw [← hstmts]
      simp
    exact (List.append_cancel_right hall).symm
  exact ⟨v, hv, by simpa using hhome, _, pre, post, hbefore, hsegment, (h.visits v hv).orderly.conforms hsegment⟩

/-- Every statement is in normal form. -/
theorem conforms (h : flow.InOrder p body t vs) {entry : BlockId × Stmt} (hentry : entry ∈ flow.statements) :
    ∃ first done, entry.2.kind.Conforms t.program (t.draft.Readable done) (t.draft.Writable first done) := by
  obtain ⟨before, after, hstmts⟩ := List.append_of_mem (Flow.mem_statements.mp hentry)
  obtain ⟨v, -, -, _, pre, _, -, -, hconforms⟩ := h.split hstmts
  exact ⟨_, pre, hconforms⟩

end Flow.InOrder

end GuardedFlow
