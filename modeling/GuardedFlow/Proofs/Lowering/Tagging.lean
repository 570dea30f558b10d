import GuardedFlow.Proofs.Lowering.Exits
import GuardedFlow.Proofs.Lowering.Tags
import GuardedFlow.Proofs.Lowering.Variables

/-!
# Tagged allocations

Every fresh reference of a lowered body is meant to be the value of a local, followed by the write of
its type tag, and by the assumption about its length if it is a new array: `Tagged`. Lowering achieves
this exactly if all allocations of the body are whole right sides of assignments to locals.
`Session.flowOf_tagged_iff` states this for every lowering, whatever its oracle counts.
-/

namespace GuardedFlow

/-- The statements that follow those of a visit in its block, when the given visits come after it. -/
def Visit.followed (v : Visit) (after : List Visit) : List Stmt :=
  (after.filter (·.home = v.home)).flatMap Visit.segment

/-- Every fresh reference of a control-flow graph is tagged. -/
structure Tagged (flow : Flow) (p : Program) (vs : List Visit) : Prop where
  /-- Guards contain no fresh references. -/
  guards : ∀ link ∈ flow.graph.edges, ∀ guard ∈ link.payload, guard.allocates = false
  /-- A statement that contains a fresh reference sets a local of the body to it, and the next statement
  of the block writes its type tag. -/
  stmts : ∀ block before stmt after, flow.graph.stmtsAt block = before ++ stmt :: after →
    stmt.kind.allocates → ∃ x ty next, stmt.kind = .assign (.var x) (.alloc ty) ∧ x ∈ flow.locals ∧
      x.role = .declared ∧ after.head? = some next ∧ p.WritesTag x ty next
  /-- An instruction that stores a new array in a local goes on with the assumption about its length. -/
  lengths : ∀ v ∈ vs, ∀ source element size, v.instr.op.stored? = some source →
    source.uncast = .newArray element size → ∃ x creation write rest,
      v.segment = creation :: write :: rest ∧
      creation.kind = .assign (.var x) (.alloc (.array element)) ∧ x ∈ flow.locals ∧
      p.WritesTag x (.array element) write ∧
      p.AssumesLength v.entered.program.supply x element size rest

/-- All that an instruction does is to store a fresh reference in a local, of something else than a new
array, and the statement that comes next in the block, although it belongs to another instruction,
writes the type tag. -/
def Visit.TaggedLater (v : Visit) (flow : Flow) (p : Program) (after : List Visit) : Prop :=
  ∃ source x ty creation next, v.instr.op.stored? = some source ∧
    (∀ element size, source.uncast ≠ .newArray element size) ∧ v.segment = [creation] ∧
    creation.kind = .assign (.var x) (.alloc ty) ∧ x ∈ flow.locals ∧ x.role = .declared ∧
    (v.followed after).head? = some next ∧ p.WritesTag x ty next

/-- What an operation does with fresh references stays so while the program grows. -/
theorem Allots.mono {idioms : List Idiom} {op : Op Nat} {locals : Array Var} {supply : VarSupply}
    {p q : Program} {out : List Stmt} (h : Allots idioms op locals supply p out) (hpq : p.Grows q) :
    Allots idioms op locals supply q out := by
  cases h with
  | spilled hop h => exact .spilled hop h
  | copied hop hty hspills hx => exact .copied hop hty hspills hx
  | tagged hop hty hx hwrite hrest hlength =>
    obtain ⟨map, hmap, hkind⟩ := hwrite
    refine .tagged hop hty hx ⟨map, ?_, hkind⟩ hrest fun element size h => ?_
    · rw [hpq.typeField]
      exact hpq.globals _ _ hmap
    · obtain ⟨evaluation, requested, length, map, read, assumption, s, t, hout, hrun, hemits, hrole,
        hlow, hmap, hread, hassume⟩ := hlength element size h
      refine ⟨evaluation, requested, length, map, read, assumption, s, t, hout, hrun, hemits, hrole,
        hlow, ?_, hread, hassume⟩
      rw [hpq.arrays]
      exact hpq.globals _ _ hmap

/-- The instruction of a visit was lowered in a proper state that continues the start of the pass. -/
structure Visit.During (body : Body) (s t : LoweringState) (v : Visit) (index : Nat) : Prop where
  run : Lower.operation index v.instr.op v.entered = .ok () v.left
  home : ∃ block, v.home = some block
  standing : v.entered.Standing body
  before : Continues s v.entered
  after : Continues v.left t

namespace Passes

variable {body : Body} {oracle : PredecessorOracle} {index : Nat} {s t : LoweringState}
  {vs : List Visit} {block : BlockId}

/-- A pass continues the state that it starts in. -/
theorem continues (h : Passes body oracle index s vs t) : Continues s t := by
  induction h with
  | last _ _ hrun hclose =>
    exact ((Lower.Keeps.operation _ _).ok hrun).trans ((Lower.Keeps.close _).ok hclose)
  | step _ _ hrun henter _ ih =>
    exact (((Lower.Keeps.operation _ _).ok hrun).trans ((Lower.Keeps.enter _ _).ok henter)).trans ih

/-- The visits of a pass take place between its start and its end. -/
theorem during (h : Passes body oracle index s vs t) (hs : s.Standing body)
    (hopen : s.openBlock = some block) :
    ∀ pair ∈ vs.zipIdx index, pair.1.During body s t pair.2 := by
  induction h generalizing block with
  | @last index instr entered left closed hinstr hlast hrun hclose =>
    intro pair hpair
    obtain rfl := List.mem_singleton.mp hpair
    exact ⟨hrun, ⟨block, hopen⟩, hs, .refl _, (Lower.Keeps.close _).ok hclose⟩
  | @step index instr entered left next closed visits hinstr hnext hrun henter hrest ih =>
    obtain ⟨hleft, -⟩ := Lower.operation_departs hs hopen hrun
    obtain ⟨hnext', -, other, -, hopen', -⟩ := Lower.enter_arrives hleft hnext henter
    have hoperation := (Lower.Keeps.operation _ _).ok hrun
    have henters := (Lower.Keeps.enter _ _).ok henter
    intro pair hpair
    rw [List.zipIdx_cons] at hpair
    rcases List.mem_cons.mp hpair with rfl | hpair
    · exact ⟨hrun, ⟨block, hopen⟩, hs, .refl _, henters.trans hrest.continues⟩
    · obtain ⟨hrun', hhome, hstanding, hbefore, hafter⟩ := ih hnext' hopen' pair hpair
      exact ⟨hrun', hhome, hstanding, (hoperation.trans henters).trans hbefore, hafter⟩

end Passes

namespace Visit.During

variable {body : Body} {s t : LoweringState} {v : Visit} {index : Nat}

/-- The segment of a visit is what its operation appended. -/
theorem allots (h : v.During body s t index) (hs : s.Proper) :
    Allots s.program.idioms v.instr.op s.draft.locals v.entered.program.supply t.program v.segment := by
  obtain ⟨block, hopen⟩ := h.home
  have hidioms := h.before.program.idioms
  have hproper := h.before.proper hs
  have hrun := h.run
  rw [← h.before.locals]
  refine Allots.mono ?_ h.after.program
  rcases Lower.jump_appended h.standing hopen hrun with hjump | ⟨target, hop, hsegment⟩ |
    ⟨condition, target, guard, u, hop, hguard, hsegment, -⟩
  · obtain ⟨out, fin, hemits, hout⟩ :=
      (Lower.operation_allots index v.instr.op hjump hidioms hproper).ok _ _ hrun
    rw [Visit.segment, hemits.appended]
    exact hout
  · rw [Visit.segment, hsegment, hop]
    exact .spilled rfl .nil
  · obtain ⟨out, fin, hemits, hspills, -⟩ :=
      (Lower.operand_leaks condition hidioms hproper).ok _ _ hguard
    rw [Visit.segment, hsegment, hemits.appended, hop]
    exact .spilled rfl hspills

end Visit.During

/-- The layout in which blocks are not told which instructions they start at. -/
def Layout.loose (vs : List Visit) : Layout where
  home index := vs[index]?.bind Visit.home
  starts _ _ := True

section Payload

variable {l : Layout} {body : Body} {index : Nat} {block : BlockId} {links : List (Link Guard)}
  {link : Link Guard}

/-- The edge at the end of a path has no guard. -/
theorem PathEnd.payload {fin : PathEnd} (hlink : link ∈ PathEnd.links (some fin) block) :
    link.payload = none := by
  cases fin with
  | halt => cases hlink
  | leave => rw [List.mem_singleton.mp hlink]

/-- The edge to the next instruction has no guard. -/
theorem Layout.Onward.payload (h : l.Onward body index block links) (hlink : link ∈ links) :
    link.payload = none := by
  unfold Onward at h
  cases hnext : body.next? index with
  | none =>
    simp only [hnext] at h
    rw [h] at hlink
    rw [List.mem_singleton.mp hlink]
  | some next =>
    simp only [hnext] at h
    rcases h with ⟨-, rfl⟩ | ⟨other, -, rfl⟩
    · cases hlink
    · rw [List.mem_singleton.mp hlink]

/-- The edge after an instruction that does not jump has no guard. -/
theorem Layout.After.payload {fin : Option PathEnd} (h : l.After body index block fin links)
    (hlink : link ∈ links) : link.payload = none := by
  cases fin with
  | some fin =>
    rw [After] at h
    exact PathEnd.payload (h ▸ hlink)
  | none => exact Onward.payload h hlink

/-- Only conditional jumps that decide something put guards on edges: their condition and its
negation. -/
theorem Layout.Leaves.payload {op : Op Nat} {entered : LoweringState}
    (h : l.Leaves body index block op entered links) (hlink : link ∈ links) :
    link.payload = none ∨ ∃ condition target guard t, op = .branch condition target ∧
      body.next? index ≠ some target ∧ Lower.operand condition entered = .ok guard t ∧
      link.payload ∈ [some guard, some guard.not] := by
  cases op with
  | goto target =>
    obtain ⟨other, -, rfl⟩ := h
    exact .inl (by rw [List.mem_singleton.mp hlink])
  | branch condition target =>
    rw [Leaves] at h
    split at h
    case isTrue hnext => exact .inl (After.payload h hlink)
    case isFalse hnext =>
      obtain ⟨-, guard, t, other, rest, hguard, -, -, rfl⟩ := h
      refine .inr ⟨condition, target, guard, t, rfl, hnext, hguard, ?_⟩
      rcases List.mem_cons.mp hlink with rfl | hlink
      · exact List.mem_cons_self
      · rw [List.mem_singleton.mp hlink]
        exact List.mem_cons_of_mem _ (List.mem_singleton_self _)
  | ret value =>
    obtain ⟨-, rfl⟩ := h
    exact .inl (by rw [List.mem_singleton.mp hlink])
  | _ =>
    simp only [Leaves] at h
    exact .inl (After.payload h hlink)

end Payload

/-- An element of a concatenation stands in one of the parts, and the parts after it follow. -/
theorem flatMap_split {α β : Type} {f : α → List β} {l : List α} {before after : List β} {b : β}
    (h : l.flatMap f = before ++ b :: after) : ∃ first a rest pre post,
      l = first ++ a :: rest ∧ f a = pre ++ b :: post ∧ after = post ++ rest.flatMap f := by
  induction l generalizing before with
  | nil => simp at h
  | cons a l ih =>
    rw [List.flatMap_cons] at h
    rcases List.append_eq_append_iff.mp h with ⟨middle, -, hrest⟩ | ⟨middle, hfirst, hrest⟩
    · obtain ⟨first, a', rest, pre, post, rfl, ha', hafter⟩ := ih hrest
      exact ⟨a :: first, a', rest, pre, post, rfl, ha', hafter⟩
    · cases middle with
      | nil =>
        rw [List.nil_append] at hrest
        have hempty : l.flatMap f = [] ++ b :: after := hrest.symm
        obtain ⟨first, a', rest, pre, post, rfl, ha', hafter⟩ := ih hempty
        exact ⟨a :: first, a', rest, pre, post, rfl, ha', hafter⟩
      | cons b' middle =>
        cases hrest
        exact ⟨[], a, l, before, middle, rfl, hfirst, rfl⟩

namespace Allots

variable {idioms : List Idiom} {op : Op Nat} {locals : Array Var} {supply : VarSupply}
  {p : Program} {out : List Stmt}

/-- If nothing is spilled, every fresh reference is stored in a local and followed by its tag. -/
theorem tagged_of_careful (h : Allots idioms op locals supply p out) (hspills : op.spills idioms = false)
    {before after : List Stmt} {stmt : Stmt} (hout : out = before ++ stmt :: after)
    (hstmt : stmt.kind.allocates) : ∃ x ty next, stmt.kind = .assign (.var x) (.alloc ty) ∧
      x ∈ locals ∧ after.head? = some next ∧ p.WritesTag x ty next := by
  cases h with
  | spilled _ h =>
    rw [hspills] at h
    have hnone := h stmt (by rw [hout]; simp)
    rw [hnone] at hstmt
    contradiction
  | copied _ _ hspills' _ =>
    rw [hspills] at hspills'
    contradiction
  | @tagged slot source ty x location write rest hop hty hx hwrite hrest hlength =>
    rw [hspills] at hrest
    cases before with
    | nil =>
      cases hout
      exact ⟨x, ty, write, rfl, hx, rfl, hwrite⟩
    | cons first before =>
      -- only the first statement contains a fresh reference
      have hmem : stmt ∈ write :: rest := by
        rw [(List.cons.inj hout).2]
        simp
      rcases List.mem_cons.mp hmem with rfl | hmem
      · obtain ⟨map, -, hkind⟩ := hwrite
        rw [hkind] at hstmt
        contradiction
      · rw [hrest stmt hmem] at hstmt
        contradiction

/-- If nothing is spilled, a new array that is stored in a local gets its length. -/
theorem assumesLength_of_careful (h : Allots idioms op locals supply p out)
    (hspills : op.spills idioms = false) {source : Value} {element : Ty} {size : Value}
    (hop : op.stored? = some source) (hsource : source.uncast = .newArray element size) :
    ∃ x creation write rest, out = creation :: write :: rest ∧
      creation.kind = .assign (.var x) (.alloc (.array element)) ∧ x ∈ locals ∧
      p.WritesTag x (.array element) write ∧ p.AssumesLength supply x element size rest := by
  have hholds : source.holds := source.holds_of_uncast
    (show source.uncast.allocated? = some (.array element) by rw [hsource]; rfl)
  obtain ⟨slot, rfl, rfl⟩ : ∃ slot, op = .assign (.slot slot) source ∧
      source = .newArray element size := by
    cases op with
    | assign place value =>
      cases place with
      | slot slot =>
        cases hop
        refine ⟨slot, rfl, ?_⟩
        cases source with
        | newArray => exact hsource
        | cast =>
          simp only [Op.spills, Value.isHeapLocation, Bool.false_eq_true, if_false, hholds,
            Bool.or_true] at hspills
          contradiction
        | _ => cases hsource
      | _ => cases hop
    | identity slot value =>
      cases hop
      rw [Op.spills, hholds, Bool.or_true] at hspills
      contradiction
    | _ => cases hop
  cases h with
  | spilled hcreated _ => cases hcreated
  | copied _ _ hspills' _ =>
    rw [hspills] at hspills'
    contradiction
  | @tagged slot source ty x location write rest hop' hty hx hwrite hrest hlength =>
    cases hop'
    cases hty
    exact ⟨x, _, write, rest, rfl, rfl, hx, hwrite, hlength element size rfl⟩

/-- If a fresh reference is spilled but does not leak in any statement, then it is stored in a local as
all that happens. -/
theorem copied_of_spills (h : Allots idioms op locals supply p out) (hspills : op.spills idioms = true)
    (hleaks : ∀ stmt ∈ out, stmt.kind.leaks = false) : ∃ source x ty location,
      op.stored? = some source ∧ x ∈ locals ∧ out = [⟨location, .assign (.var x) (.alloc ty)⟩] := by
  cases h with
  | spilled _ h =>
    rw [hspills] at h
    obtain ⟨stmt, hmem, hleak⟩ := h
    rw [hleaks stmt hmem] at hleak
    contradiction
  | @copied ty x location source hop hty _ hx => exact ⟨source, x, ty, location, hop, hx, rfl⟩
  | @tagged slot source ty x location write rest hop hty hx hwrite hrest hlength =>
    rw [hspills] at hrest
    obtain ⟨stmt, hmem, hleak⟩ := hrest
    rw [hleaks stmt (List.mem_cons_of_mem _ (List.mem_cons_of_mem _ hmem))] at hleak
    contradiction

end Allots

/-- A finished control-flow graph, taken apart into the visits of its pass. -/
structure Assembled (body : Body) (flow : Flow) (s t : LoweringState) (vs : List Visit) : Prop where
  proper : s.Proper
  locals : ∀ x ∈ s.draft.locals, x ∈ flow.locals
  during : ∀ pair ∈ vs.zipIdx, pair.1.During body s t pair.2
  stmts : ∀ block, flow.graph.stmtsAt block = (vs.filter (·.home = some block)).flatMap Visit.segment
  exits : ∃ exits : List (List (Link Guard)),
    (∀ link ∈ flow.graph.edges, link.payload = none ∨ link ∈ exits.flatten) ∧
    (∀ link ∈ exits.flatten, link ∈ flow.graph.edges) ∧
    List.Forall₂ (fun p links => ∃ block, p.1.home = some block ∧
      (Layout.loose vs).Leaves body p.2 block p.1.instr.op p.1.entered links) vs.zipIdx exits

namespace Assembled

variable {body : Body} {flow : Flow} {s t : LoweringState} {vs before after : List Visit} {v : Visit}

/-- A visit with those before and after it. -/
theorem during_of_split (h : Assembled body flow s t vs) (hvs : vs = before ++ v :: after) :
    v.During body s t before.length := by
  have hmem : (v, before.length) ∈ vs.zipIdx := by
    rw [List.mem_zipIdx_iff_getElem?, hvs]
    simp
  exact h.during _ hmem

/-- The statements before and after those of a visit in its block. -/
theorem stmtsAt_home (h : Assembled body flow s t vs) (hvs : vs = before ++ v :: after)
    {block : BlockId} (hhome : v.home = some block) : ∃ earlier,
      flow.graph.stmtsAt block = earlier ++ (v.segment ++ v.followed after) := by
  refine ⟨(before.filter (·.home = some block)).flatMap Visit.segment, ?_⟩
  rw [h.stmts, hvs, Visit.followed, hhome]
  simp [List.filter_append, hhome]

/-- A statement of a block stands in the segment of a visit. -/
theorem segment_of_stmt (h : Assembled body flow s t vs) {block : BlockId} {earlier later : List Stmt}
    {stmt : Stmt} (hstmts : flow.graph.stmtsAt block = earlier ++ stmt :: later) :
    ∃ before v after pre post, vs = before ++ v :: after ∧ v.segment = pre ++ stmt :: post ∧
      later = post ++ v.followed after := by
  rw [h.stmts] at hstmts
  obtain ⟨first, v, rest, pre, post, hfilter, hsegment, hlater⟩ := flatMap_split hstmts
  obtain ⟨before, tail, rfl, -, htail⟩ := List.filter_eq_append_iff.mp hfilter
  obtain ⟨skipped, after, rfl, -, hhome, hafter⟩ := List.filter_eq_cons_iff.mp htail
  have hhome' : v.home = some block := by simpa using hhome
  refine ⟨before ++ skipped, v, after, pre, post, by simp, hsegment, ?_⟩
  rw [hlater, Visit.followed, hhome', hafter]

/-- The edges of a visit are edges of the graph. -/
theorem leaves_of_split (h : Assembled body flow s t vs) (hvs : vs = before ++ v :: after) :
    ∃ block links, (∀ link ∈ links, link ∈ flow.graph.edges) ∧
      (Layout.loose vs).Leaves body before.length block v.instr.op v.entered links := by
  obtain ⟨exits, -, hmem, hleaves⟩ := h.exits
  have hlt : before.length < vs.zipIdx.length := by simp [hvs]
  have hlt' : before.length < exits.length := hleaves.length_eq ▸ hlt
  have hpair : vs.zipIdx[before.length] = (v, before.length) := by simp [hvs]
  obtain ⟨block, -, hlinks⟩ := List.forall₂_iff_get.mp hleaves |>.2 before.length hlt hlt'
  refine ⟨block, exits[before.length], fun link hlink => hmem link ?_, ?_⟩
  · exact List.mem_flatten.mpr ⟨_, List.getElem_mem hlt', hlink⟩
  · rw [List.get_eq_getElem, hpair] at hlinks
    exact hlinks

/-- An edge with a guard is one by which some visit leaves the block that it belongs to. -/
theorem exit_of_link (h : Assembled body flow s t vs) {link : Link Guard}
    (hlink : link ∈ flow.graph.edges) : link.payload = none ∨ ∃ before v after block links,
      vs = before ++ v :: after ∧ v.home = some block ∧ link ∈ links ∧
      (Layout.loose vs).Leaves body before.length block v.instr.op v.entered links := by
  obtain ⟨exits, hedges, -, hleaves⟩ := h.exits
  refine (hedges link hlink).imp_right fun hmem => ?_
  obtain ⟨links, hlinks, hmem⟩ := List.mem_flatten.mp hmem
  obtain ⟨i, hi, rfl⟩ := List.getElem_of_mem hlinks
  have hi' : i < vs.zipIdx.length := hleaves.length_eq.symm ▸ hi
  have hi'' : i < vs.length := by simpa using hi'
  obtain ⟨block, hhome, hlinks'⟩ := List.forall₂_iff_get.mp hleaves |>.2 i hi' hi
  have hpair : vs.zipIdx.get ⟨i, hi'⟩ = (vs[i], i) := by simp
  rw [hpair] at hhome hlinks'
  refine ⟨vs.take i, vs[i], vs.drop (i + 1), block, exits[i], ?_, hhome, hmem, ?_⟩
  · rw [← List.drop_eq_getElem_cons hi'', List.take_append_drop]
  · rw [List.length_take_of_le (Nat.le_of_lt hi'')]
    exact hlinks'

/-- A link has no guard, or it is one of those that leave the block of a visit. -/
theorem leaves_of_link (h : Assembled body flow s t vs) {link : Link Guard}
    (hlink : link ∈ flow.graph.edges) : link.payload = none ∨ ∃ before v after block links,
      vs = before ++ v :: after ∧ link ∈ links ∧
      (Layout.loose vs).Leaves body before.length block v.instr.op v.entered links :=
  (h.exit_of_link hlink).imp_right fun ⟨before, v, after, block, links, hvs, _, hmem, hleaves⟩ =>
    ⟨before, v, after, block, links, hvs, hmem, hleaves⟩

end Assembled

/-- A guard contains a fresh reference exactly if its condition holds one. -/
theorem allocates_guard {condition : Value} {guard e : Expr} {s t : LoweringState} (hs : s.Proper)
    (h : Lower.operand condition s = .ok guard t) (he : some e ∈ [some guard, some guard.not]) :
    e.allocates = condition.holds := by
  obtain ⟨out, fin, -, -, hguard⟩ := (Lower.operand_leaks condition rfl hs).ok _ _ h
  rw [List.mem_pair, Option.some.injEq, Option.some.injEq] at he
  rcases he with rfl | rfl
  · exact hguard
  · exact hguard

/-- A statement that sets a local to a fresh reference leaks nothing. -/
theorem StmtKind.not_leaks {kind : StmtKind} {x : Var} {ty : Ty}
    (h : kind = .assign (.var x) (.alloc ty)) (hx : x.role = .declared) : kind.leaks = false := by
  simp [leaks, h, fresh?, hx]

namespace Assembled

variable {body : Body} {flow : Flow} {s t : LoweringState} {vs before after : List Visit} {v : Visit}

/-- What the instruction of a visit does with the fresh references that it evaluates. -/
theorem allots (h : Assembled body flow s t vs) (hvs : vs = before ++ v :: after) :
    Allots s.program.idioms v.instr.op s.draft.locals v.entered.program.supply t.program v.segment :=
  (h.during_of_split hvs).allots h.proper

/-- The locals of the body are declared variables of the graph. -/
theorem declared (h : Assembled body flow s t vs) {x : Var} (hx : x ∈ s.draft.locals) :
    x ∈ flow.locals ∧ x.role = .declared :=
  ⟨h.locals x hx, (h.proper.locals x hx).1⟩

/-! #### If every fresh reference is tagged -/

/-- A statement with a fresh reference sets a local to it, so it leaks nothing. -/
theorem leaks_of_tagged (h : Assembled body flow s t vs) (htagged : Tagged flow t.program vs)
    (hvs : vs = before ++ v :: after) : ∀ stmt ∈ v.segment, stmt.kind.leaks = false := by
  intro stmt hstmt
  obtain ⟨block, hhome⟩ := (h.during_of_split hvs).home
  obtain ⟨earlier, hstmts⟩ := h.stmtsAt_home hvs hhome
  obtain ⟨pre, post, hsegment⟩ := List.append_of_mem hstmt
  have hsplit : flow.graph.stmtsAt block =
      (earlier ++ pre) ++ stmt :: (post ++ v.followed after) := by
    rw [hstmts, hsegment]
    simp
  cases hallocates : stmt.kind.allocates with
  | false => rw [StmtKind.leaks, hallocates, Bool.false_and]
  | true =>
    obtain ⟨x, ty, next, hkind, -, hrole, -⟩ := htagged.stmts _ _ _ _ hsplit hallocates
    exact StmtKind.not_leaks hkind hrole

/-- A fresh reference that is spilled is stored in a local as all that the instruction does, so it is
the next statement of the block that writes the tag. -/
theorem taggedLater_of_tagged (h : Assembled body flow s t vs) (htagged : Tagged flow t.program vs)
    (hvs : vs = before ++ v :: after) (hspills : v.instr.op.spills s.program.idioms = true) :
    v.TaggedLater flow t.program after := by
  obtain ⟨block, hhome⟩ := (h.during_of_split hvs).home
  obtain ⟨earlier, hstmts⟩ := h.stmtsAt_home hvs hhome
  obtain ⟨source, x, ty, location, hstored, hx, hsegment⟩ :=
    (h.allots hvs).copied_of_spills hspills (h.leaks_of_tagged htagged hvs)
  rw [hsegment] at hstmts
  obtain ⟨x', ty', next, hkind, -, -, hnext, hwrite⟩ := htagged.stmts _ _ _ _ hstmts rfl
  cases hkind
  obtain ⟨hx', hrole⟩ := h.declared hx
  refine ⟨source, x, ty, _, next, hstored, fun element size hsource => ?_, hsegment, rfl, hx', hrole,
    hnext, hwrite⟩
  -- a new array would go on with the assumption about its length
  have hv : v ∈ vs := hvs ▸ List.mem_append_right _ List.mem_cons_self
  obtain ⟨_, creation, write, rest, hsegment', -⟩ := htagged.lengths v hv _ _ _ hstored hsource
  rw [hsegment] at hsegment'
  cases hsegment'

/-- A condition that decides something holds no fresh reference, since the guards contain none. -/
theorem guards_of_tagged (h : Assembled body flow s t vs) (htagged : Tagged flow t.program vs)
    (hvs : vs = before ++ v :: after) : v.instr.op.guards (body.next? before.length) = false := by
  obtain ⟨_, links, hlinks, hleaves⟩ := h.leaves_of_split hvs
  cases hop : v.instr.op with
  | branch condition target =>
    rw [hop, Layout.Leaves] at hleaves
    by_cases hnext : body.next? before.length = some target
    · simp [Op.guards, hnext]
    · rw [if_neg hnext] at hleaves
      obtain ⟨-, guard, u, other, rest, hguard, -, -, rfl⟩ := hleaves
      have hproper := (h.during_of_split hvs).before.proper h.proper
      have hclean := htagged.guards _ (hlinks _ List.mem_cons_self) guard rfl
      rw [allocates_guard hproper hguard List.mem_cons_self] at hclean
      rw [Op.guards, hclean, Bool.false_and]
  | _ => rfl

/-! #### If no visit spills a fresh reference, or its tag is written later -/

section Careful

variable (h : Assembled body flow s t vs)
  (hcareful : ∀ before v after, vs = before ++ v :: after →
    v.instr.op.spills s.program.idioms = false ∧ v.instr.op.guards (body.next? before.length) = false ∨
      v.TaggedLater flow t.program after)
include h hcareful

/-- Guards contain no fresh references. -/
theorem guard_of_careful (link : Link Guard) (hlink : link ∈ flow.graph.edges) :
    ∀ guard ∈ link.payload, guard.allocates = false := by
  intro guard hguard
  rcases h.leaves_of_link hlink with hnone | ⟨before, v, after, block, links, hvs, hmem, hleaves⟩
  · rw [hnone] at hguard
    cases hguard
  · have hproper := (h.during_of_split hvs).before.proper h.proper
    rcases hleaves.payload hmem with hnone | ⟨condition, target, e, u, hop, hnext, hrun, hpayload⟩
    · rw [hnone] at hguard
      cases hguard
    · rw [Option.mem_def.mp hguard] at hpayload
      rw [allocates_guard hproper hrun hpayload]
      rcases hcareful before v after hvs with ⟨-, hguards⟩ | ⟨source, -, -, -, -, hstored, -⟩
      · rw [hop, Op.guards] at hguards
        simpa [hnext] using hguards
      · rw [hop] at hstored
        cases hstored

/-- A statement with a fresh reference sets a local to it, and the next one writes the tag. -/
theorem stmt_of_careful (block : BlockId) (earlier : List Stmt) (stmt : Stmt) (later : List Stmt)
    (hstmts : flow.graph.stmtsAt block = earlier ++ stmt :: later) (hallocates : stmt.kind.allocates) :
    ∃ x ty next, stmt.kind = .assign (.var x) (.alloc ty) ∧ x ∈ flow.locals ∧ x.role = .declared ∧
      later.head? = some next ∧ t.program.WritesTag x ty next := by
  obtain ⟨before, v, after, pre, post, hvs, hsegment, rfl⟩ := h.segment_of_stmt hstmts
  rcases hcareful before v after hvs with ⟨hspills, -⟩ | hlater
  · obtain ⟨x, ty, next, hkind, hx, hnext, hwrite⟩ :=
      (h.allots hvs).tagged_of_careful hspills hsegment hallocates
    obtain ⟨hx', hrole⟩ := h.declared hx
    exact ⟨x, ty, next, hkind, hx', hrole, by rw [List.head?_append, hnext]; rfl, hwrite⟩
  · obtain ⟨source, x, ty, creation, next, -, -, hsegment', hkind, hx, hrole, hnext, hwrite⟩ := hlater
    rw [hsegment'] at hsegment
    obtain ⟨rfl, rfl⟩ : stmt = creation ∧ post = [] := by
      cases pre with
      | nil =>
        cases hsegment
        exact ⟨rfl, rfl⟩
      | cons first pre => simp at hsegment
    exact ⟨x, ty, next, hkind, hx, hrole, hnext, hwrite⟩

/-- A new array that is stored in a local gets its length. -/
theorem length_of_careful (v : Visit) (hv : v ∈ vs) (source : Value) (element : Ty) (size : Value)
    (hstored : v.instr.op.stored? = some source) (hsource : source.uncast = .newArray element size) :
    ∃ x creation write rest, v.segment = creation :: write :: rest ∧
      creation.kind = .assign (.var x) (.alloc (.array element)) ∧ x ∈ flow.locals ∧
      t.program.WritesTag x (.array element) write ∧
      t.program.AssumesLength v.entered.program.supply x element size rest := by
  obtain ⟨before, after, hvs⟩ := List.append_of_mem hv
  rcases hcareful before v after hvs with ⟨hspills, -⟩ | hlater
  · obtain ⟨x, creation, write, rest, hsegment, hkind, hx, hwrite, hlength⟩ :=
      (h.allots hvs).assumesLength_of_careful hspills hstored hsource
    exact ⟨x, creation, write, rest, hsegment, hkind, (h.declared hx).1, hwrite, hlength⟩
  · obtain ⟨source', -, -, -, -, hstored', hother, -⟩ := hlater
    rw [hstored] at hstored'
    cases hstored'
    exact absurd hsource (hother element size)

end Careful

end Assembled

namespace Session

variable {body : Body} {oracle : PredecessorOracle} {p q : Program} {flow : Flow}

/-- Every lowering that succeeds assembles its graph from the visits of its pass. -/
theorem flowOf_assembled (hp : p.Named) (h : flowOf body oracle p = .ok flow q) :
    ∃ t, q = t.program ∧ (startOf body p).program.Grows q ∧
      Assembled body flow (startOf body p) t (visits body oracle p) := by
  have hproper := proper_startOf hp body
  by_cases hempty : body.code.isEmpty
  · obtain ⟨hvisits, hstmts, hedges⟩ := flowOf_empty hempty h
    obtain ⟨t, hstream, rfl, rfl⟩ := flowOf_ok h
    have hkeeps := (Lower.Keeps.stream oracle body).ok hstream
    rw [hvisits]
    refine ⟨t, rfl, hkeeps.program, hproper, fun x hx => ?_, by simp, hstmts, [], ?_, by simp, .nil⟩
    · rw [← hkeeps.locals] at hx
      exact Array.mem_append_left _ (Array.mem_append_left _ hx)
    · intro link hlink
      rw [← Array.mem_toList_iff, hedges] at hlink
      exact .inl (by rw [List.mem_singleton.mp hlink])
  · obtain ⟨entered, t, block, hpasses, rfl, rfl, hentered, hopen, -, hstmts, hedges, henter⟩ :=
      flowOf_passes hempty h
    have hfirst := (Lower.Keeps.enter _ _).ok henter
    have hpassed := hpasses.passedOver hentered hopen
    have hkeeps := hfirst.trans hpasses.continues
    have hhome : ∀ pair ∈ (visits body oracle p).zipIdx,
        (Layout.loose (visits body oracle p)).home pair.2 = pair.1.home := by
      intro pair hpair
      change (visits body oracle p)[pair.2]?.bind Visit.home = _
      rw [List.mem_zipIdx_iff_getElem?.mp hpair]
      rfl
    obtain ⟨exits, hlinks, hleaves⟩ := hpasses.exits hentered hopen (fun _ _ _ => trivial) hhome
    rw [hedges, List.nil_append] at hlinks
    refine ⟨t, rfl, hkeeps.program, hproper, fun x hx => ?_, fun pair hpair => ?_, fun other => ?_,
      exits, fun link hlink => ?_, fun link hlink => ?_, hleaves⟩
    · rw [← hkeeps.locals] at hx
      exact Array.mem_append_left _ (Array.mem_append_left _ hx)
    · obtain ⟨hrun, hhome, hstanding, hbefore, hafter⟩ := hpasses.during hentered hopen pair hpair
      exact ⟨hrun, hhome, hstanding, hfirst.trans hbefore, hafter⟩
    · exact (hpassed.stmts other).trans (by rw [hstmts, List.nil_append])
    · exact .inr (hlinks ▸ Array.mem_toList_iff.mpr hlink)
    · exact Array.mem_toList_iff.mp (hlinks ▸ hlink)

/-- The allocations of a lowered body are tagged exactly if no instruction spills one into its
statements or guards, unless the instruction only stores one in a local and the next statement of the
block writes the tag by chance. -/
theorem flowOf_tagged_iff (hp : p.Named) (h : flowOf body oracle p = .ok flow q) :
    Tagged flow q (visits body oracle p) ↔
      ∀ before v after, visits body oracle p = before ++ v :: after →
        v.instr.op.spills p.idioms = false ∧ v.instr.op.guards (body.next? before.length) = false ∨
          v.TaggedLater flow q after := by
  obtain ⟨t, rfl, -, hassembled⟩ := flowOf_assembled hp h
  constructor
  · intro htagged before v after hvs
    cases hspills : v.instr.op.spills p.idioms with
    | false => exact .inl ⟨rfl, hassembled.guards_of_tagged htagged hvs⟩
    | true => exact .inr (hassembled.taggedLater_of_tagged htagged hvs hspills)
  · intro hcareful
    exact ⟨hassembled.guard_of_careful hcareful, hassembled.stmt_of_careful hcareful,
      hassembled.length_of_careful hcareful⟩

/-- A local that is set to a new object under a cast. -/
def castExample : Body where
  method := ⟨"Alloc", "cast", [], .prim .void⟩
  isStatic := true
  isSynchronized := false
  locals := #[⟨"x", .named "A"⟩]
  code := #[⟨.assign (.slot 0) (.cast (.named "A") (.new (.named "A"))), .unknown⟩, ⟨.retVoid, .unknown⟩]

/-- The body is lowered, and its new object is not tagged: the cast hides it. -/
theorem flowOf_cast_untagged : ∃ flow q,
    flowOf castExample castExample.predecessorOracle (.new .standard) = .ok flow q ∧
      ¬ Tagged flow q (visits castExample castExample.predecessorOracle (.new .standard)) := by
  have hsegments : (visits castExample castExample.predecessorOracle (.new .standard)).map
      (·.segment.length) = [1, 0] := by decide +kernel
  have hspills : (visits castExample castExample.predecessorOracle (.new .standard)).map
      (·.instr.op.spills (Program.new .standard).idioms) = [true, false] := by decide +kernel
  obtain ⟨flow, h⟩ :=
    exists_ok (r := flowOf castExample castExample.predecessorOracle (.new .standard)) (by decide +kernel)
  refine ⟨flow, _, h, fun htagged => ?_⟩
  have hcareful := (flowOf_tagged_iff (Program.named_new _) h).mp htagged
  generalize visits castExample castExample.predecessorOracle (.new .standard) = vs at *
  obtain ⟨v, w, rfl⟩ : ∃ v w, vs = [v, w] :=
    List.length_eq_two.mp (by simpa using congrArg List.length hsegments)
  rcases hcareful [] v [w] rfl with ⟨hspills', -⟩ | ⟨_, _, _, _, _, -, -, -, -, -, -, hnext, -⟩
  · have hspilled : v.instr.op.spills (Program.new .standard).idioms = true :=
      (List.cons.inj hspills).1
    rw [hspilled] at hspills'
    cases hspills'
  · have hsilent : w.segment = [] :=
      List.eq_nil_of_length_eq_zero (List.cons.inj (List.cons.inj hsegments).2).1
    have hnothing : v.followed [w] = [] := by
      rw [Visit.followed, List.filter_cons]
      split <;> simp [hsilent]
    rw [hnothing] at hnext
    cases hnext

end Session

end GuardedFlow
