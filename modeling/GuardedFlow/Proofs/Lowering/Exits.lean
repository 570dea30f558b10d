import GuardedFlow.Proofs.Lowering.PathEnds
import GuardedFlow.Proofs.Lowering.Visits

/-!
# The edges that an instruction leaves its block by

An instruction leaves its block by the edges of its jump, by one edge to the sink, by one edge to the
block of the next instruction, or not at all. `Layout.Leaves` tells which, for a given layout of the
stream. A pass appends the statements and the edges of its visits in the order of the stream, whatever
its oracle counts: `Passes.passedOver`.
-/

namespace GuardedFlow

/-- The next position is the one after, in the stream. -/
theorem Body.next?_eq_some {body : Body} {index next : Nat} :
    body.next? index = some next ↔ next = index + 1 ∧ next < body.code.size := by
  unfold Body.next?
  split
  · rw [Option.some.injEq]
    constructor
    · rintro rfl
      exact ⟨rfl, by assumption⟩
    · rintro ⟨rfl, -⟩
      rfl
  · constructor
    · intro h
      contradiction
    · rintro ⟨rfl, hlt⟩
      contradiction

/-- The edges by which a path ends that stood in a block. -/
def PathEnd.links : Option PathEnd → BlockId → List (Link Guard)
  | some leave, block => [⟨block, Flow.sink, none⟩]
  | some halt, _ | none, _ => []

/-- Where the instructions of a stream stand. -/
structure Layout where
  /-- The block that an instruction belongs to. -/
  home : Nat → Option BlockId
  /-- Which block starts at an instruction. -/
  starts : Nat → BlockId → Prop

namespace Layout

/-- Control goes on with the next instruction: in the same block, by one edge to the block that starts
there, or by one edge to the sink if there is no next instruction. -/
def Onward (l : Layout) (body : Body) (index : Nat) (block : BlockId) (links : List (Link Guard)) :
    Prop :=
  match body.next? index with
  | some next =>
    l.home next = some block ∧ links = [] ∨ ∃ other, l.starts next other ∧ links = [⟨block, other, none⟩]
  | none => links = [⟨block, Flow.sink, none⟩]

/-- The edges after an instruction that ends the path as given, or else goes on. -/
def After (l : Layout) (body : Body) (index : Nat) (block : BlockId) (fin : Option PathEnd)
    (links : List (Link Guard)) : Prop :=
  match fin with
  | some fin => links = PathEnd.links (some fin) block
  | none => l.Onward body index block links

/-- The layout knows of the blocks in the map of a draft which instructions they start at. -/
def Covers (l : Layout) (d : Draft) : Prop :=
  ∀ index block, d.blockAt? index = some block → l.starts index block

/-- The edges by which the operation at `index` leaves its block, when it was entered in the given
state. -/
def Leaves (l : Layout) (body : Body) (index : Nat) (block : BlockId) (op : Op Nat)
    (entered : LoweringState) (links : List (Link Guard)) : Prop :=
  match op with
  | .goto target => ∃ other, l.starts target other ∧ links = [⟨block, other, none⟩]
  | .branch condition target =>
    if body.next? index = some target then
      l.After body index block (condition.pathEnd entered.program.idioms) links
    else
      condition.pathEnd entered.program.idioms = none ∧ ∃ guard t other rest,
        Lower.operand condition entered = .ok guard t ∧ l.starts target other ∧
        (match body.next? index with
          | some next => l.starts next rest
          | none => rest = Flow.sink) ∧
        links = [⟨block, other, some guard⟩, ⟨block, rest, some (.unary .not guard)⟩]
  | .ret value =>
    value.pathEnd entered.program.idioms = none ∧ links = [⟨block, Flow.sink, none⟩]
  | op => l.After body index block (op.pathEnd entered.program.idioms) links

end Layout

/-- A state of a pass over a body: the blocks that it knows are in order, and so is the open one. -/
structure LoweringState.Standing (body : Body) (s : LoweringState) : Prop where
  mapped : s.draft.Mapped body
  openBlock : ∀ block, s.openBlock = some block → block < s.draft.graph.nodeCount ∧ block ≠ Flow.sink

namespace Draft.Extends

variable {d e f : Draft} {block : BlockId} {out : List Stmt} {links : List (Link Guard)}
  {targets : List Nat}

/-- Only the body, the graph and the map of blocks count. -/
theorem congr (h : Extends d e block out links targets) (hbody : f.body = e.body)
    (hstarts : f.starts = e.starts) (hgraph : f.graph = e.graph) :
    Extends d f block out links targets := by
  have hblockAt (index : Nat) : f.blockAt? index = e.blockAt? index := by simp only [blockAt?, hstarts]
  refine ⟨fun body hd => ?_, fun index other hother => ?_, fun index hindex => ?_, fun other => ?_, ?_, ?_⟩
  · obtain ⟨hlowers, hsize, hsink, hvalid, hinjective, hentry⟩ := h.mapped body hd
    refine ⟨hbody.trans hlowers, hstarts ▸ hsize, hgraph ▸ hsink, ?_, ?_, ?_⟩
    · simpa only [hblockAt, hgraph] using hvalid
    · simpa only [hblockAt] using hinjective
    · simpa only [hblockAt] using hentry
  · rw [hblockAt]
    exact h.kept index other hother
  · rw [hblockAt]
    exact h.others index hindex
  · rw [hgraph]
    exact h.stmts other
  · rw [hgraph]
    exact h.edges
  · rw [hgraph]
    exact h.nodeCount

/-- A step between two jumps appends its statements and the edge at the end of its path. -/
theorem of_emits {s t : LoweringState} {fin : Option PathEnd} (h : Emits s out fin t)
    (hopen : s.openBlock = some block) (hblock : block < s.draft.graph.nodeCount) :
    Extends s.draft t.draft block out (PathEnd.links fin block) [] := by
  have hgraph := h.graph
  rw [hopen] at hgraph
  have hout := of_extend (d := s.draft) hblock out
  rcases fin with _ | _ | _
  · exact hout.congr h.body h.starts hgraph
  · exact hout.congr h.body h.starts hgraph
  · have hlink := hout.trans (of_link _ block block Flow.sink none)
    rw [List.append_nil] at hlink
    exact hlink.congr h.body h.starts hgraph

end Draft.Extends

/-- How control stands after the operation at `index` was lowered from `s` to `t` with the given
edges. -/
inductive Departs (l : Layout) (body : Body) (index : Nat) (block : BlockId) (op : Op Nat)
    (s t : LoweringState) : List (Link Guard) → Prop where
  /-- The block is still open, and it depends on the next instruction how control goes on. -/
  | onward (hopen : t.openBlock = some block) (hfalls : op.fallsThrough)
      (h : ∀ links, l.Onward body index block links → l.Leaves body index block op s links) :
      Departs l body index block op s t []
  /-- No block is open. -/
  | closed {links : List (Link Guard)} (hopen : t.openBlock = none)
      (h : l.Leaves body index block op s links) : Departs l body index block op s t links
  /-- The block of the next instruction is open. -/
  | moved {links : List (Link Guard)} {next : Nat} {other : BlockId}
      (hnext : body.next? index = some next) (hopen : t.openBlock = some other)
      (hstarts : t.draft.blockAt? next = some other)
      (h : l.Leaves body index block op s links) : Departs l body index block op s t links

namespace Lower

variable {body : Body} {l : Layout} {index : Nat} {block : BlockId} {s t : LoweringState}

/-- A value is returned only if its operands do not end the path. -/
theorem returnValue_pathEnd {value : Value} (h : returnValue (operand value) s = .ok () t) :
    value.pathEnd s.program.idioms = none := by
  obtain ⟨d, u, hdraft, h₁⟩ := bind_ok h
  cases hdraft
  cases hresult : s.draft.result with
  | none =>
    simp only [hresult] at h₁
    cases h₁
  | some result =>
    simp only [hresult] at h₁
    obtain ⟨e, u, hvalue, h₂⟩ := bind_ok h₁
    obtain ⟨_, v, hemit, -⟩ := bind_ok h₂
    obtain ⟨loc, w, hlocation, h₃⟩ := bind_ok hemit
    cases hlocation
    obtain ⟨current, w, hcurrent, -⟩ := bind_ok h₃
    obtain ⟨-, hopen⟩ := currentBlock_ok hcurrent
    obtain ⟨out, hemits, -⟩ := (operand_ends value).ok rfl hvalue
    exact (hemits.still_open hopen).1

/-- Only the ends of a path close its block, apart from jumps. -/
theorem departs_of_emits {op : Op Nat} {out : List Stmt} {fin : Option PathEnd}
    (h : Emits s out fin t) (hopen : s.openBlock = some block) (hfalls : fin = none → op.fallsThrough)
    (hleaves : ∀ links, l.After body index block fin links → l.Leaves body index block op s links) :
    Departs l body index block op s t (PathEnd.links fin block) := by
  have hopen' := h.openBlock
  cases fin with
  | none => exact .onward (hopen'.trans hopen) (hfalls rfl) hleaves
  | some fin => exact .closed hopen' (hleaves _ rfl)

/-- A step between two jumps, seen from the draft. -/
theorem standing_of_emits {out : List Stmt} {fin : Option PathEnd} (hs : s.Standing body)
    (h : Emits s out fin t) (hopen : s.openBlock = some block) : t.Standing body := by
  have hextends := Draft.Extends.of_emits h hopen (hs.openBlock block hopen).1
  refine ⟨hextends.mapped body hs.mapped, fun other hother => ?_⟩
  obtain ⟨hlt, hne⟩ := hs.openBlock other (h.still_open hother).2
  exact ⟨Nat.lt_of_lt_of_le hlt hextends.nodeCount, hne⟩

/-- The statements that extend the open block are those that were appended. -/
theorem appended_of_extends {out : List Stmt} {links : List (Link Guard)} {targets : List Nat}
    (hopen : s.openBlock = some block) (h : s.draft.Extends t.draft block out links targets) :
    s.appended t = out := by
  have hstmts := h.stmts block
  rw [if_pos rfl] at hstmts
  simp only [LoweringState.appended, hopen, hstmts, List.drop_left]

/-- What a jump adds to the draft, and how it leaves its block. -/
theorem goto_departs (index : Nat) {target : Nat} (hs : s.Standing body) (hopen : s.openBlock = some block)
    (h : goto target s = .ok () t) : t.Standing body ∧ t.program = s.program ∧ ∃ links,
      s.draft.Extends t.draft block [] links [target] ∧
      ∀ l : Layout, l.Covers t.draft → Departs l body index block (.goto target) s t links := by
  obtain ⟨hlt, source, other, d, hsource, hlocated, rfl⟩ := goto_ok h
  rw [hopen] at hsource
  cases hsource
  have hextends := (hlocated.extended block).trans (.of_link d block block other none)
  have hfound := hlocated.found (by rw [hs.mapped.size, ← hs.mapped.lowers]; exact hlt)
  refine ⟨⟨hextends.mapped body hs.mapped, fun _ h => by cases h⟩, rfl, _, hextends, fun l hl => ?_⟩
  exact .closed rfl ⟨other, hl target other hfound, rfl⟩

/-- What a conditional jump adds to the draft, and how it leaves its block. -/
theorem branch_departs {target : Nat} {condition : Value} (hs : s.Standing body)
    (hopen : s.openBlock = some block) (h : branch index condition target s = .ok () t) :
    t.Standing body ∧ ∃ out fin guard u links,
      operand condition s = .ok guard u ∧ Emits s out fin u ∧ t.program = u.program ∧
      s.draft.Extends t.draft block out links (target :: (body.next? index).toList) ∧
      ∀ l : Layout, l.Covers t.draft →
        Departs l body index block (.branch condition target) s t links := by
  obtain ⟨hlt, guard, u, hguard, hrest⟩ := branch_ok h
  obtain ⟨out, hemits, -⟩ := (operand_ends condition).ok rfl hguard
  generalize hfin : condition.pathEnd s.program.idioms = fin at hemits
  have hextends := Draft.Extends.of_emits hemits hopen (hs.openBlock block hopen).1
  have hu := standing_of_emits hs hemits hopen
  have hbody : u.draft.body = body := hu.mapped.lowers
  rw [hbody] at hrest
  rcases hrest with ⟨hnext, rfl⟩ | ⟨hnext, source, other, d, hsource, hlocated, hrest⟩
  · refine ⟨hu, out, fin, guard, _, _, hguard, hemits, rfl, hextends.mono (by simp), fun l _ => ?_⟩
    refine departs_of_emits hemits hopen (fun _ => rfl) fun links hafter => ?_
    rw [Layout.Leaves, if_pos hnext, hfin]
    exact hafter
  · obtain ⟨rfl, hblock⟩ := hemits.still_open hsource
    rw [hopen] at hblock
    cases hblock
    have hjump := (hextends.andLinks (hlocated.extended block)).andLinks
      (.of_link d block block other (some guard))
    have hfound := hlocated.found (by
      rw [hu.mapped.size, ← hs.mapped.lowers]
      exact hlt)
    rcases hrest with ⟨hnone, rfl⟩ | ⟨next, rest, e, hsome, hlocated', rfl⟩
    · have hall := hjump.andLinks (.of_link _ block block Flow.sink (some guard.not))
      refine ⟨⟨hall.mapped body hs.mapped, fun _ h => by cases h⟩, out, none, guard, u, _, hguard,
        hemits, rfl, hall.mono (by simp), fun l hl => .closed rfl ?_⟩
      rw [Layout.Leaves, if_neg hnext]
      exact ⟨hfin, guard, u, other, _, hguard, hl target other hfound, by rw [hnone], rfl⟩
    · have hall := (hjump.andLinks (hlocated'.extended block)).andLinks
        (.of_link e block block rest (some guard.not))
      have hmapped := hall.mapped body hs.mapped
      obtain ⟨-, hlt'⟩ := Body.next?_eq_some.mp hsome
      have hfound' := hlocated'.found (by
        change next < d.starts.size
        rw [(hlocated.mapped hu.mapped).size]
        exact hlt')
      refine ⟨⟨hmapped, fun c hc => ?_⟩, out, none, guard, u, _, hguard, hemits, rfl,
        hall.mono (by simp [hsome]), fun l hl => .moved hsome rfl hfound' ?_⟩
      · cases hc
        exact hmapped.valid next rest hfound'
      · rw [Layout.Leaves, if_neg hnext]
        refine ⟨hfin, guard, u, other, rest, hguard, ?_, ?_, rfl⟩
        · exact hl target other (hlocated'.kept hfound)
        · rw [hsome]
          exact hl next rest hfound'

/-- What an operation adds to the draft, and how control leaves its block. -/
theorem operation_departs {op : Op Nat} (hs : s.Standing body) (hopen : s.openBlock = some block)
    (h : operation index op s = .ok () t) :
    t.Standing body ∧ t.program.idioms = s.program.idioms ∧ ∃ out links,
      s.draft.Extends t.draft block out links (op.jumpTargets ++ (body.next? index).toList) ∧
      ∀ l : Layout, l.Covers t.draft → Departs l body index block op s t links := by
  have hplain (hjump : op.jumpTargets = [])
      (hfalls : op.pathEnd s.program.idioms = none → op.fallsThrough)
      (hleaves : ∀ (l : Layout) (links : List (Link Guard)),
        l.After body index block (op.pathEnd s.program.idioms) links →
        l.Leaves body index block op s links) :
      t.Standing body ∧ t.program.idioms = s.program.idioms ∧ ∃ out links,
        s.draft.Extends t.draft block out links (op.jumpTargets ++ (body.next? index).toList) ∧
        ∀ l : Layout, l.Covers t.draft → Departs l body index block op s t links := by
    obtain ⟨out, hemits, -⟩ := (operation_ends index op hjump).ok rfl h
    exact ⟨standing_of_emits hs hemits hopen, hemits.program.idioms, out, _,
      (Draft.Extends.of_emits hemits hopen (hs.openBlock block hopen).1).mono (by simp),
      fun l _ => departs_of_emits hemits hopen hfalls (hleaves l)⟩
  cases op with
  | goto target =>
    obtain ⟨ht, hprogram, links, hextends, hdeparts⟩ := goto_departs index hs hopen h
    exact ⟨ht, by rw [hprogram], [], links, hextends.mono (by simp [Op.jumpTargets]), hdeparts⟩
  | branch condition target =>
    obtain ⟨ht, out, fin, guard, u, links, -, hemits, hprogram, hrest⟩ := branch_departs hs hopen h
    exact ⟨ht, hprogram ▸ hemits.program.idioms, out, links, hrest⟩
  | ret value =>
    have hnone := returnValue_pathEnd h
    have hend : (Op.ret value : Op Nat).pathEnd s.program.idioms = some .leave := by
      simp only [Op.pathEnd, hnone, Option.none_or]
    refine hplain rfl (fun hfin => ?_) fun l links hafter => ?_
    · rw [hend] at hfin
      contradiction
    · rw [hend] at hafter
      exact ⟨hnone, hafter⟩
  | retVoid => exact hplain rfl (fun hfin => by cases hfin) fun _ _ hafter => hafter
  | tableSwitch | lookupSwitch | subroutineReturn | throw => cases h
  | _ => exact hplain rfl (fun _ => rfl) fun _ _ hafter => hafter

/-- All that a jump appends are the statements for its condition. -/
theorem jump_appended {op : Op Nat} (hs : s.Standing body) (hopen : s.openBlock = some block)
    (h : operation index op s = .ok () t) : op.jumpTargets = [] ∨
      (∃ target, op = .goto target ∧ s.appended t = []) ∨
      ∃ condition target guard u, op = .branch condition target ∧ operand condition s = .ok guard u ∧
        s.appended t = s.appended u ∧ t.program = u.program := by
  cases op with
  | goto target =>
    obtain ⟨-, -, links, hextends, -⟩ := goto_departs index hs hopen h
    exact .inr (.inl ⟨target, rfl, appended_of_extends hopen hextends⟩)
  | branch condition target =>
    obtain ⟨-, out, fin, guard, u, links, hguard, hemits, hprogram, hextends, -⟩ :=
      branch_departs hs hopen h
    have hsame : s.appended t = s.appended u := by
      rw [appended_of_extends hopen hextends, hemits.appended]
    exact .inr (.inr ⟨condition, target, guard, u, rfl, hguard, hsame, hprogram⟩)
  | tableSwitch | lookupSwitch => cases h
  | _ => exact .inl rfl

/-- An operation that is lowered does its events, whether it jumps or not. -/
theorem operation_went {op : Op Nat} (hs : s.Standing body) (hopen : s.openBlock = some block)
    (h : operation index op s = .ok () t) : Went s s (op.events s.program.idioms) (s.appended t) t := by
  rcases jump_appended hs hopen h with hjump | ⟨target, rfl, happended⟩ |
    ⟨condition, target, guard, u, rfl, hguard, happended, hprogram⟩
  · obtain ⟨out, fin, hemits, -, hwent, -⟩ := ((operation_traces index op hjump).yields s (.refl s)).ok () t h
    rw [hemits.appended]
    exact hwent
  · rw [happended]
    exact ⟨(Quiet.goto target).told_ok h, fun _ => rfl, .nil⟩
  · obtain ⟨out, fin, hemits, -, hwent, -⟩ :=
      ((operand_traces condition).yields s (.refl s)).ok guard u hguard
    rw [happended, hemits.appended]
    exact ⟨by rw [LoweringState.Told, hprogram]; exact hwent.told, hwent.strict, hprogram ▸ hwent.shows⟩

end Lower

/-- How control stands after the instruction at `index` was entered from `s` in `block` with the given
edges. -/
inductive Arrives (oracle : PredecessorOracle) (index : Nat) (s t : LoweringState) (block : BlockId) :
    List (Link Guard) → Prop where
  /-- No block was open. -/
  | opened (hclosed : s.openBlock = none) (hstarts : t.draft.blockAt? index = some block) :
      Arrives oracle index s t block []
  /-- The open block goes on: it starts at the instruction, or nothing else can precede it. -/
  | stayed (hopen : s.openBlock = some block)
      (hstarts : t.draft.blockAt? index = some block ∨
        t.draft.blockAt? index = none ∧ oracle.count index ≤ 1) :
      Arrives oracle index s t block []
  /-- The open block leads to the one that starts at the instruction. -/
  | led (source : BlockId) (hopen : s.openBlock = some source)
      (hother : s.draft.blockAt? index ≠ some source)
      (hstarts : t.draft.blockAt? index = some block) :
      Arrives oracle index s t block [⟨source, block, none⟩]

/-- How a stream is closed from `s`. -/
inductive Closes (s : LoweringState) : List (Link Guard) → Prop where
  /-- No block is open. -/
  | idle (hclosed : s.openBlock = none) : Closes s []
  /-- The open block leads to the sink. -/
  | led (source : BlockId) (hopen : s.openBlock = some source) :
      Closes s [⟨source, Flow.sink, none⟩]

namespace Lower

variable {body : Body} {oracle : PredecessorOracle} {index : Nat} {s t : LoweringState}

/-- What entering an instruction adds to the draft. -/
theorem enter_arrives (hs : s.Standing body) (hlt : index < body.code.size)
    (h : enter oracle index s = .ok () t) :
    t.Standing body ∧ t.program = s.program ∧ ∃ block links, t.openBlock = some block ∧
      (∀ other, s.draft.Extends t.draft other [] links [index]) ∧ Arrives oracle index s t block links := by
  have hmove (other : BlockId) : s.draft.Extends (s.draft.moveTo index) other [] [] [] :=
    (Draft.Extends.refl s.draft other).congr rfl rfl rfl
  have hmapped := (hmove 0).mapped body hs.mapped
  have hsize : index < (s.draft.moveTo index).starts.size := hmapped.size ▸ hlt
  rcases enter_ok h with ⟨hclosed, block, d, hlocated, rfl⟩ | ⟨block, hopen, rfl, hstarts⟩ |
    ⟨source, block, d, hopen, hlocated, hother, -, rfl⟩
  · have hextends (other : BlockId) := (hmove other).trans (hlocated.extended other)
    have hfound := hlocated.found hsize
    refine ⟨⟨hlocated.mapped hmapped, fun c hc => ?_⟩, rfl, block, [], rfl, hextends,
      .opened hclosed hfound⟩
    cases hc
    exact (hlocated.mapped hmapped).valid index block hfound
  · exact ⟨⟨hmapped, hs.openBlock⟩, rfl, block, [], hopen, fun other => (hmove other).mono (by simp),
      .stayed hopen hstarts⟩
  · have hextends (other : BlockId) :=
      ((hmove other).trans (hlocated.extended other)).trans (.of_link d other source block none)
    have hfound := hlocated.found hsize
    refine ⟨⟨(hextends 0).mapped body hs.mapped, fun c hc => ?_⟩, rfl, block, _, rfl, hextends,
      .led source hopen hother hfound⟩
    cases hc
    exact (hlocated.mapped hmapped).valid index block hfound

/-- What closing a stream with instructions adds to the draft. -/
theorem close_closes (hnonempty : ¬ body.code.isEmpty) (h : close body s = .ok () t) :
    t.program = s.program ∧ t.openBlock = none ∧ ∃ links,
      (∀ other, s.draft.Extends t.draft other [] links []) ∧ Closes s links := by
  rcases close_ok h with ⟨hempty, -⟩ | ⟨-, hclosed, rfl⟩ | ⟨-, source, hopen, rfl⟩
  · contradiction
  · exact ⟨rfl, hclosed, [], fun other => .refl _ other, .idle hclosed⟩
  · exact ⟨rfl, rfl, _, fun other => .of_link _ other source Flow.sink none, .led source hopen⟩

end Lower

namespace Departs

variable {body : Body} {l : Layout} {index : Nat} {block : BlockId} {op : Op Nat}
  {s t u : LoweringState} {links more : List (Link Guard)}

/-- Entering the next instruction completes the edges of an operation. -/
theorem leaves_enter {oracle : PredecessorOracle} {next : Nat} {other : BlockId}
    (h : Departs l body index block op s t links) (hnext : body.next? index = some next)
    (harrives : Arrives oracle next t u other more) (hhome : l.home next = some other)
    (hl : l.Covers u.draft) : l.Leaves body index block op s (links ++ more) := by
  cases h with
  | onward hopen hfalls hleaves =>
    apply hleaves
    rw [Layout.Onward, hnext]
    cases harrives with
    | opened hclosed _ =>
      rw [hopen] at hclosed
      contradiction
    | stayed hopen' _ =>
      rw [hopen] at hopen'
      cases hopen'
      exact .inl ⟨hhome, rfl⟩
    | led source hopen' _ hstarts =>
      rw [hopen] at hopen'
      cases hopen'
      exact .inr ⟨other, hl next other hstarts, rfl⟩
  | closed hopen hleaves =>
    cases harrives with
    | opened _ _ => exact links.append_nil.symm ▸ hleaves
    | stayed hopen' _ | led _ hopen' _ _ =>
      rw [hopen] at hopen'
      contradiction
  | moved hnext' hopen hstarts hleaves =>
    rw [hnext] at hnext'
    cases hnext'
    cases harrives with
    | opened hclosed _ =>
      rw [hopen] at hclosed
      contradiction
    | stayed _ _ => exact links.append_nil.symm ▸ hleaves
    | led source hopen' hother _ =>
      rw [hopen] at hopen'
      cases hopen'
      contradiction

/-- The end of the stream completes the edges of its last operation. -/
theorem leaves_close (h : Departs l body index block op s t links) (hnext : body.next? index = none)
    (hcloses : Closes t more) : l.Leaves body index block op s (links ++ more) := by
  cases hcloses with
  | idle hclosed =>
    rw [List.append_nil]
    cases h with
    | onward hopen _ _ =>
      rw [hopen] at hclosed
      contradiction
    | closed _ hleaves => exact hleaves
    | moved hnext' _ _ _ =>
      rw [hnext] at hnext'
      contradiction
  | led source hopen =>
    cases h with
    | onward hopen' _ hleaves =>
      rw [hopen] at hopen'
      cases hopen'
      apply hleaves
      rw [Layout.Onward, hnext]
      rfl
    | closed hclosed _ =>
      rw [hopen] at hclosed
      contradiction
    | moved hnext' _ _ _ =>
      rw [hnext] at hnext'
      contradiction

end Departs

namespace Visit

/-- An instruction appends its segment to its own block, and nothing to the others. -/
theorem stmts_left (v : Visit) {block : BlockId} {out : List Stmt} {links : List (Link Guard)}
    {targets : List Nat} (hopen : v.entered.openBlock = some block)
    (h : v.entered.draft.Extends v.left.draft block out links targets) (other : BlockId) :
    v.left.draft.graph.stmtsAt other = v.entered.draft.graph.stmtsAt other ++
      if v.home = some other then v.segment else [] := by
  have hsegment : v.segment = out := Lower.appended_of_extends hopen h
  have hhome : v.home = some block := hopen
  rw [hsegment, hhome, h.stmts]
  simp [eq_comm]

/-- The segments of a block, with that of the first visit apart. -/
theorem segments_cons (v : Visit) (vs : List Visit) (block : BlockId) :
    ((v :: vs).filter (·.home = some block)).flatMap segment =
      (if v.home = some block then v.segment else []) ++
        (vs.filter (·.home = some block)).flatMap segment := by
  by_cases hhome : v.home = some block <;> simp [hhome]

end Visit

/-- What a pass over the given visits did to the draft. -/
structure PassedOver (body : Body) (s t : LoweringState) (vs : List Visit) : Prop where
  standing : t.Standing body
  idioms : t.program.idioms = s.program.idioms
  kept : ∀ index block, s.draft.blockAt? index = some block → t.draft.blockAt? index = some block
  nodeCount : s.draft.graph.nodeCount ≤ t.draft.graph.nodeCount
  /-- Every instruction belongs to a block. -/
  homes : ∀ v ∈ vs, ∃ block, v.home = some block ∧ block < t.draft.graph.nodeCount ∧ block ≠ Flow.sink
  /-- An instruction appends to its own block only. -/
  segments : ∀ v ∈ vs, ∀ block, v.left.draft.graph.stmtsAt block =
    v.entered.draft.graph.stmtsAt block ++ if v.home = some block then v.segment else []
  /-- The statements of a block are those of its instructions. -/
  stmts : ∀ block, t.draft.graph.stmtsAt block = s.draft.graph.stmtsAt block ++
    (vs.filter (·.home = some block)).flatMap Visit.segment

namespace Passes

variable {body : Body} {oracle : PredecessorOracle} {index : Nat} {s t : LoweringState}
  {vs : List Visit} {block : BlockId}

/-- A pass appends the segments of its visits to their blocks, in the order of the stream. -/
theorem passedOver (h : Passes body oracle index s vs t) (hs : s.Standing body)
    (hopen : s.openBlock = some block) : PassedOver body s t vs := by
  induction h generalizing block with
  | @last index instr entered left closed hinstr hlast hrun hclose =>
    obtain ⟨hleft, hidioms, out, links, hextends, -⟩ := Lower.operation_departs hs hopen hrun
    have hnonempty : ¬ body.code.isEmpty := by simp [← Array.size_eq_zero_iff, hlast]
    obtain ⟨hprogram, hclosed, more, hextends', -⟩ := Lower.close_closes hnonempty hclose
    have hall := hextends.trans (hextends' block)
    have happended := Visit.stmts_left ⟨instr, entered, left⟩ hopen hextends
    refine ⟨⟨hall.mapped body hs.mapped, fun c hc => ?_⟩, by rw [hprogram, hidioms], hall.kept,
      hall.nodeCount, ?_, ?_, fun other => ?_⟩
    · rw [hclosed] at hc
      contradiction
    · rintro v hv
      obtain rfl := List.mem_singleton.mp hv
      obtain ⟨hlt, hne⟩ := hs.openBlock block hopen
      exact ⟨block, hopen, Nat.lt_of_lt_of_le hlt hall.nodeCount, hne⟩
    · rintro v hv
      obtain rfl := List.mem_singleton.mp hv
      exact happended
    · have hclosing := (hextends' block).stmts other
      rw [ite_self, List.append_nil] at hclosing
      rw [hclosing, happended, Visit.segments_cons]
      exact congrArg _ (List.append_nil _).symm
  | @step index instr entered left next closed visits hinstr hnext hrun henter hrest ih =>
    obtain ⟨hleft, hidioms, out, links, hextends, -⟩ := Lower.operation_departs hs hopen hrun
    obtain ⟨hnext', hprogram, other, more, hopen', hextends', -⟩ :=
      Lower.enter_arrives hleft hnext henter
    have hpassed := ih hnext' hopen'
    have hall := hextends.trans (hextends' block)
    have happended := Visit.stmts_left ⟨instr, entered, left⟩ hopen hextends
    have hcount := Nat.le_trans hall.nodeCount hpassed.nodeCount
    refine ⟨hpassed.standing, by rw [hpassed.idioms, hprogram, hidioms],
      fun i c hc => hpassed.kept i c (hall.kept i c hc), hcount, ?_, ?_, fun c => ?_⟩
    · rintro v hv
      rcases List.mem_cons.mp hv with rfl | hv
      · obtain ⟨hlt, hne⟩ := hs.openBlock block hopen
        exact ⟨block, hopen, Nat.lt_of_lt_of_le hlt hcount, hne⟩
      · exact hpassed.homes v hv
    · rintro v hv
      rcases List.mem_cons.mp hv with rfl | hv
      · exact happended
      · exact hpassed.segments v hv
    · have hentering := (hextends' block).stmts c
      rw [ite_self, List.append_nil] at hentering
      rw [hpassed.stmts, hentering, happended, Visit.segments_cons, List.append_assoc]

/-- The first visit of a pass starts in the state in which the pass starts. -/
theorem head (h : Passes body oracle index s vs t) : ∃ v rest, vs = v :: rest ∧ v.entered = s := by
  cases h with
  | last | step => exact ⟨_, _, rfl, rfl⟩

/-- A pass adds the edges by which its visits leave their blocks, in the order of the stream. -/
theorem exits (h : Passes body oracle index s vs t) (hs : s.Standing body)
    (hopen : s.openBlock = some block) {l : Layout} (hl : l.Covers t.draft)
    (hhome : ∀ p ∈ vs.zipIdx index, l.home p.2 = p.1.home) :
    ∃ exits : List (List (Link Guard)),
      t.draft.graph.edges.toList = s.draft.graph.edges.toList ++ exits.flatten ∧
      List.Forall₂ (fun p links => ∃ block, p.1.home = some block ∧
        l.Leaves body p.2 block p.1.instr.op p.1.entered links) (vs.zipIdx index) exits := by
  induction h generalizing block with
  | @last index instr entered left closed hinstr hlast hrun hclose =>
    obtain ⟨hleft, -, out, links, hextends, hdeparts⟩ := Lower.operation_departs hs hopen hrun
    have hnext : body.next? index = none := by
      rw [Body.next?, if_neg]
      omega
    have hnonempty : ¬ body.code.isEmpty := by simp [← Array.size_eq_zero_iff, hlast]
    obtain ⟨-, -, more, hextends', hcloses⟩ := Lower.close_closes hnonempty hclose
    have hcovers : l.Covers left.draft := fun i c hc => hl i c ((hextends' 0).kept i c hc)
    refine ⟨[links ++ more], ?_, .cons ⟨block, hopen, ?_⟩ .nil⟩
    · rw [(hextends.trans (hextends' block)).edges, List.flatten_singleton]
    · exact (hdeparts l hcovers).leaves_close hnext hcloses
  | @step index instr entered left next closed visits hinstr hnext hrun henter hrest ih =>
    obtain ⟨hleft, -, out, links, hextends, hdeparts⟩ := Lower.operation_departs hs hopen hrun
    obtain ⟨hnext', -, other, more, hopen', hextends', harrives⟩ :=
      Lower.enter_arrives hleft hnext henter
    have hpassed := hrest.passedOver hnext' hopen'
    have hcovers : l.Covers next.draft := fun i c hc => hl i c (hpassed.kept i c hc)
    have hcovers' : l.Covers left.draft := fun i c hc => hcovers i c ((hextends' 0).kept i c hc)
    obtain ⟨exits, hedges, hleaves⟩ := ih hnext' hopen' hl fun p hp => hhome p (List.mem_cons_of_mem _ hp)
    have hindex : body.next? index = some (index + 1) := by rw [Body.next?, if_pos hnext]
    have hnexthome : l.home (index + 1) = some other := by
      obtain ⟨v, rest, rfl, hv⟩ := hrest.head
      have hv' := hhome (v, index + 1) (by simp)
      rw [hv', Visit.home, hv, hopen']
    refine ⟨(links ++ more) :: exits, ?_, .cons ⟨block, hopen, ?_⟩ hleaves⟩
    · rw [hedges, ((hextends.trans (hextends' block))).edges, List.flatten_cons, List.append_assoc]
    · exact (hdeparts l hcovers').leaves_enter hindex harrives hnexthome hcovers

end Passes

namespace Session

/-- A lowering starts in order. -/
theorem standing_startOf (body : Body) (p : Program) : (startOf body p).Standing body :=
  ⟨Draft.mapped_start body p.supply, fun _ h => by cases h⟩

/-- A lowering starts with empty blocks. -/
theorem stmtsAt_startOf (body : Body) (p : Program) (block : BlockId) :
    (startOf body p).draft.graph.stmtsAt block = [] := by
  rcases block with _ | _ | block <;> rfl

/-- An empty body has no visits and no statements, and one edge. -/
theorem flowOf_empty {body : Body} {oracle : PredecessorOracle} {p q : Program} {flow : Flow}
    (hempty : body.code.isEmpty) (h : flowOf body oracle p = .ok flow q) :
    visits body oracle p = [] ∧ (∀ block, flow.graph.stmtsAt block = []) ∧
      flow.graph.edges.toList = [⟨Flow.entry, Flow.sink, none⟩] := by
  obtain ⟨t, hstream, rfl, rfl⟩ := flowOf_ok h
  obtain ⟨_, u, hrun, hclose⟩ := Lower.bind_ok hstream
  have hcode : body.code.toList = [] := by simpa using hempty
  rw [hcode] at hrun
  cases hrun
  rcases Lower.close_ok hclose with ⟨-, rfl⟩ | ⟨hnonempty, -⟩ | ⟨hnonempty, -⟩
  · refine ⟨?_, stmtsAt_startOf body p, rfl⟩
    rw [visits, hcode]
    rfl
  · contradiction
  · contradiction

/-- The lowering of a body with instructions enters the first one in the block that starts there, and
passes over all of them. -/
theorem flowOf_passes {body : Body} {oracle : PredecessorOracle} {p q : Program} {flow : Flow}
    (hempty : ¬ body.code.isEmpty) (h : flowOf body oracle p = .ok flow q) :
    ∃ entered t block, Passes body oracle 0 entered (visits body oracle p) t ∧
      flow = t.draft.finish ∧ q = t.program ∧ entered.Standing body ∧
      entered.openBlock = some block ∧ entered.draft.blockAt? 0 = some block ∧
      (∀ other, entered.draft.graph.stmtsAt other = []) ∧ entered.draft.graph.edges.toList = [] ∧
      Lower.enter oracle 0 (startOf body p) = .ok () entered := by
  obtain ⟨t, hstream, rfl, rfl⟩ := flowOf_ok h
  obtain ⟨_, u, hrun, hclose⟩ := Lower.bind_ok hstream
  cases hcode : body.code.toList with
  | nil => exact absurd (by simpa using hcode) hempty
  | cons instr rest =>
    rw [hcode] at hrun
    have hdrop : body.code.toList.drop 0 = instr :: rest := hcode
    obtain ⟨entered, henter, hpasses⟩ := Passes.of_instructions hdrop hrun hclose
    have hpos : 0 < body.code.size := by
      rw [← Array.length_toList, hcode]
      exact Nat.succ_pos _
    obtain ⟨hentered, -, block, links, hopen, hextends, harrives⟩ :=
      Lower.enter_arrives (standing_startOf body p) hpos henter
    obtain ⟨rfl, hstarts⟩ : links = [] ∧ entered.draft.blockAt? 0 = some block := by
      cases harrives with
      | opened _ hstarts => exact ⟨rfl, hstarts⟩
      | stayed hopen' _ | led _ hopen' _ _ => cases hopen'
    refine ⟨entered, t, block, ?_, rfl, rfl, hentered, hopen, hstarts, fun other => ?_, ?_, henter⟩
    · rw [visits, hcode]
      exact hpasses
    · rw [(hextends 0).stmts, stmtsAt_startOf, ite_self, List.append_nil]
    · rw [(hextends 0).edges]
      rfl

end Session

end GuardedFlow
