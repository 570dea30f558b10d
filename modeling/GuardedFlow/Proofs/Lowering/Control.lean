import GuardedFlow.Proofs.Code.Transfer
import GuardedFlow.Proofs.Lowering.Exits

/-!
# Control flow is preserved

Blocks are found in one forward pass. An instruction goes on in the open block only if nothing but the
instruction before it can precede it, as far as the oracle tells; so a jump back to it cannot come
later, provided that the oracle counts all joins of the body. `Placed` states where the visited
instructions stand, and `Session.flowOf_controls` is what follows for the finished graph: every
instruction has one block, the blocks hold the statements of their instructions in the order of the
stream, and the edges are those of the transfers of control.
-/

namespace GuardedFlow

/-- The blocks of the instructions that were visited. A block starts at the first instruction that
belongs to it. -/
def Layout.ofVisits (vs : List Visit) : Layout where
  home index := vs[index]?.bind Visit.home
  starts index block := vs[index]?.bind Visit.home = some block ∧
    ∀ earlier < index, vs[earlier]?.bind Visit.home ≠ some block

/-- A control-flow graph represents the transfers of control of a body. -/
structure Controls (body : Body) (flow : Flow) (vs : List Visit) : Prop where
  /-- Every instruction is visited once, in the order of the stream. -/
  instrs : vs.map Visit.instr = body.code.toList
  /-- Every instruction belongs to one block, which is not the sink. -/
  homes : ∀ v ∈ vs, ∃ block, v.home = some block ∧ flow.graph.hasNode block ∧ block ≠ Flow.sink
  /-- The first instruction starts the entry block. -/
  entry : ∀ v, vs[0]? = some v → v.home = some Flow.entry
  /-- An instruction appends its statements to its own block only. -/
  segments : ∀ v ∈ vs, ∀ block, v.left.draft.graph.stmtsAt block =
    v.entered.draft.graph.stmtsAt block ++ if v.home = some block then v.segment else []
  /-- The instructions of a block follow one another in the stream. -/
  contiguous : ∀ first middle last block, first ≤ middle → middle ≤ last →
    (Layout.ofVisits vs).home first = some block → (Layout.ofVisits vs).home last = some block →
    (Layout.ofVisits vs).home middle = some block
  /-- A block holds the statements of its instructions, and nothing else. -/
  stmts : ∀ block, flow.graph.stmtsAt block =
    (vs.filter (·.home = some block)).flatMap Visit.segment
  /-- The edges are those by which the instructions leave their blocks, and no others. -/
  exits : ∃ exits : List (List (Link Guard)),
    flow.graph.edges.toList =
      (if body.code.isEmpty then [⟨Flow.entry, Flow.sink, none⟩] else exits.flatten) ∧
    List.Forall₂ (fun p links => ∃ block, p.1.home = some block ∧
      (Layout.ofVisits vs).Leaves body p.2 block p.1.instr.op p.1.entered links) vs.zipIdx exits

/-- An instruction that goes on in the block of the one before it: the oracle counts no other
predecessor, and that one falls through. -/
def Joins (body : Body) (oracle : PredecessorOracle) (home : Nat → Option BlockId) (index : Nat)
    (block : BlockId) : Prop :=
  oracle.count index ≤ 1 ∧ ∃ before instr, index = before + 1 ∧ home before = some block ∧
    body.code[before]? = some instr ∧ instr.op.fallsThrough

/-- The first `count` instructions stand in blocks that start at them or in the blocks of the
instructions before them. -/
def Placed (body : Body) (oracle : PredecessorOracle) (home : Nat → Option BlockId) (count : Nat)
    (d : Draft) : Prop :=
  ∀ index < count, ∃ block, home index = some block ∧
    (d.blockAt? index = some block ∨ d.blockAt? index = none ∧ Joins body oracle home index block)

namespace Placed

variable {body : Body} {oracle : PredecessorOracle} {home : Nat → Option BlockId} {count : Nat}
  {d e : Draft} {index : Nat} {block : BlockId}

/-- Only the blocks of the visited instructions count. -/
theorem congr (h : Placed body oracle home count d)
    (heq : ∀ index < count, e.blockAt? index = d.blockAt? index) :
    Placed body oracle home count e := fun index hindex => by
  rw [heq index hindex]
  exact h index hindex

/-- The block of an instruction starts at some instruction that is not after it, and all instructions
between the two belong to it. -/
theorem leader (h : Placed body oracle home count d) (hindex : index < count)
    (hhome : home index = some block) : ∃ first ≤ index, d.blockAt? first = some block ∧
      ∀ middle, first ≤ middle → middle ≤ index → home middle = some block := by
  induction index with
  | zero =>
    obtain ⟨other, hother, hstarts | ⟨-, -, before, -, hbefore, -⟩⟩ := h 0 hindex
    · rw [hhome] at hother
      cases hother
      refine ⟨0, Nat.le_refl 0, hstarts, fun middle _ hmiddle => ?_⟩
      rw [Nat.le_zero.mp hmiddle, hhome]
    · omega
  | succ index ih =>
    obtain ⟨other, hother, hstarts | ⟨-, -, before, instr, hbefore, hhome', -⟩⟩ := h (index + 1) hindex
    · rw [hhome] at hother
      cases hother
      refine ⟨index + 1, Nat.le_refl _, hstarts, fun middle hfirst hlast => ?_⟩
      rw [Nat.le_antisymm hlast hfirst, hhome]
    · rw [hhome] at hother
      cases hother
      cases hbefore
      obtain ⟨first, hle, hstarts, hbetween⟩ := ih (by omega) hhome'
      refine ⟨first, Nat.le_succ_of_le hle, hstarts, fun middle hfirst hlast => ?_⟩
      rcases Nat.le_succ_iff.mp hlast with hlast | rfl
      · exact hbetween middle hfirst hlast
      · exact hhome

/-- A block in the map of the draft starts at its instruction: that one belongs to it, and no earlier
one does. -/
theorem starts (h : Placed body oracle home count d) (hd : d.Mapped body) (hindex : index < count)
    (hstarts : d.blockAt? index = some block) :
    home index = some block ∧ ∀ earlier < index, home earlier ≠ some block := by
  refine ⟨?_, fun earlier hearlier hhome => ?_⟩
  · obtain ⟨other, hother, hsome | ⟨hnone, -⟩⟩ := h index hindex
    · rw [hstarts] at hsome
      cases hsome
      exact hother
    · rw [hstarts] at hnone
      contradiction
  · obtain ⟨first, hle, hfirst, -⟩ := h.leader (by omega) hhome
    have := hd.injective first index block hfirst hstarts
    omega

/-- The instructions of a block follow one another. -/
theorem contiguous (h : Placed body oracle home count d) (hd : d.Mapped body) {first middle last : Nat}
    (hmiddle : first ≤ middle) (hlast : middle ≤ last) (hcount : last < count)
    (hhome : home first = some block) (hhome' : home last = some block) :
    home middle = some block := by
  obtain ⟨leader, hle, hleader, -⟩ := h.leader (by omega) hhome
  obtain ⟨leader', hle', hleader', hbetween⟩ := h.leader hcount hhome'
  have hsame := hd.injective leader leader' block hleader hleader'
  exact hbetween middle (by omega) hlast

/-- A jump that does not lead forward leads to an instruction that a block starts at: two instructions
can pass control to it, so it did not join another block. -/
theorem jump_back {instr : Instr} {target : Nat} (h : Placed body oracle home (index + 1) d)
    (hjoins : ∀ i, 1 < body.predecessorOracle.count i → 1 < oracle.count i)
    (hinstr : body.code[index]? = some instr) (htarget : target ∈ instr.op.jumpTargets)
    (hback : target ≤ index) : ∃ block, d.blockAt? target = some block := by
  obtain ⟨hlt, -⟩ := Array.getElem?_eq_some_iff.mp hinstr
  obtain ⟨block, -, hstarts | ⟨-, hcount, before, prior, rfl, -, hprior, hfalls⟩⟩ :=
    h target (Nat.lt_succ_of_le hback)
  · exact ⟨block, hstarts⟩
  · have hbefore : before + 1 ∈ body.transferTargets before prior := by
      have hnext : body.next? before = some (before + 1) := by
        rw [Body.next?, if_pos (by omega)]
      simp [Body.transferTargets, hfalls, hnext]
    have hindex : before + 1 ∈ body.transferTargets index instr :=
      List.mem_append_left _ htarget
    have hjoin := body.one_lt_count hprior hinstr (by omega) hbefore hindex (by omega)
    have := hjoins _ hjoin
    omega

/-- An operation does not touch the blocks of the visited instructions. -/
theorem operation {instr : Instr} {out : List Stmt} {links : List (Link Guard)}
    (h : Placed body oracle home (index + 1) d)
    (hjoins : ∀ i, 1 < body.predecessorOracle.count i → 1 < oracle.count i)
    (hinstr : body.code[index]? = some instr)
    (hextends : d.Extends e block out links (instr.op.jumpTargets ++ (body.next? index).toList)) :
    Placed body oracle home (index + 1) e := by
  refine h.congr fun target htarget => ?_
  by_cases hjump : target ∈ instr.op.jumpTargets
  · obtain ⟨other, hother⟩ := h.jump_back hjoins hinstr hjump (by omega)
    rw [hother, hextends.kept target other hother]
  · refine hextends.others target fun hmem => ?_
    rcases List.mem_append.mp hmem with hmem | hmem
    · exact hjump hmem
    · rw [Body.next?] at hmem
      split at hmem
      · rw [Option.toList_some, List.mem_singleton] at hmem
        omega
      · exact absurd hmem List.not_mem_nil

end Placed

namespace Passes

variable {body : Body} {oracle : PredecessorOracle} {index : Nat} {s t : LoweringState}
  {vs : List Visit} {block : BlockId} {home : Nat → Option BlockId}

/-- If the oracle counts all joins, a pass places all instructions. -/
theorem placed (h : Passes body oracle index s vs t)
    (hjoins : ∀ i, 1 < body.predecessorOracle.count i → 1 < oracle.count i)
    (hs : s.Standing body) (hopen : s.openBlock = some block)
    (hhome : ∀ p ∈ vs.zipIdx index, home p.2 = p.1.home)
    (hplaced : Placed body oracle home (index + 1) s.draft) :
    Placed body oracle home body.code.size t.draft := by
  induction h generalizing block with
  | @last index instr entered left closed hinstr hlast hrun hclose =>
    obtain ⟨-, -, out, links, hextends, -⟩ := Lower.operation_departs hs hopen hrun
    have hnonempty : ¬ body.code.isEmpty := by simp [← Array.size_eq_zero_iff, hlast]
    obtain ⟨-, -, more, hextends', -⟩ := Lower.close_closes hnonempty hclose
    rw [hlast]
    exact (hplaced.operation hjoins hinstr hextends).congr fun i _ =>
      (hextends' 0).others i List.not_mem_nil
  | @step index instr entered left next closed visits hinstr hnext hrun henter hrest ih =>
    obtain ⟨hleft, -, out, links, hextends, hdeparts⟩ := Lower.operation_departs hs hopen hrun
    obtain ⟨hnext', -, other, more, hopen', hextends', harrives⟩ :=
      Lower.enter_arrives hleft hnext henter
    have hleft' := hplaced.operation hjoins hinstr hextends
    have hindex : home (index + 1) = some other := by
      obtain ⟨v, rest, rfl, hv⟩ := hrest.head
      rw [hhome (v, index + 1) (by simp), Visit.home, hv, hopen']
    refine ih hnext' hopen' (fun p hp => hhome p (List.mem_cons_of_mem _ hp)) fun i hi => ?_
    rcases Nat.lt_succ_iff_lt_or_eq.mp hi with hi | rfl
    · rw [(hextends' 0).others i (by simp; omega)]
      exact hleft' i hi
    · refine ⟨other, hindex, ?_⟩
      cases harrives with
      | opened _ hstarts | led _ _ _ hstarts => exact .inl hstarts
      | stayed hstill hstarts =>
        rcases hstarts with hstarts | ⟨hnone, hcount⟩
        · exact .inl hstarts
        · refine .inr ⟨hnone, hcount, index, instr, rfl, ?_⟩
          -- only an operation that falls through leaves its block open for an instruction that
          -- starts none
          cases hdeparts ⟨home, fun _ _ => True⟩ fun _ _ _ => trivial with
          | onward hopen'' hfalls _ =>
            rw [hstill] at hopen''
            cases hopen''
            have hhere := hhome (⟨instr, entered, left⟩, index) (by simp)
            exact ⟨hhere.trans hopen, hinstr, hfalls⟩
          | closed hclosed _ =>
            rw [hstill] at hclosed
            contradiction
          | moved hsome _ hstarts' _ =>
            rw [Body.next?, if_pos hnext] at hsome
            cases hsome
            rw [(hextends' 0).kept _ _ hstarts'] at hnone
            contradiction

/-- If the oracle counts all joins, a pass over a whole body places its instructions where they are
visited. -/
theorem placed_visits (h : Passes body oracle 0 s vs t)
    (hjoins : ∀ i, 1 < body.predecessorOracle.count i → 1 < oracle.count i)
    (hs : s.Standing body) (hopen : s.openBlock = some block)
    (hstarts : s.draft.blockAt? 0 = some block) :
    (Layout.ofVisits vs).home 0 = some block ∧
      (∀ pair ∈ vs.zipIdx, (Layout.ofVisits vs).home pair.2 = pair.1.home) ∧
      Placed body oracle (Layout.ofVisits vs).home body.code.size t.draft := by
  have hhome : ∀ pair ∈ vs.zipIdx, (Layout.ofVisits vs).home pair.2 = pair.1.home := by
    intro pair hpair
    change vs[pair.2]?.bind Visit.home = _
    rw [List.mem_zipIdx_iff_getElem?.mp hpair]
    rfl
  have hfirst : (Layout.ofVisits vs).home 0 = some block := by
    obtain ⟨v, rest, rfl, hv⟩ := h.head
    change v.home = _
    rw [Visit.home, hv, hopen]
  refine ⟨hfirst, hhome, h.placed hjoins hs hopen hhome fun index hindex => ?_⟩
  rw [Nat.lt_one_iff.mp hindex]
  exact ⟨block, hfirst, .inl hstarts⟩

end Passes

namespace Session

/-- An empty body has one edge, from the entry to the sink. -/
theorem controls_empty {body : Body} {oracle : PredecessorOracle} {p q : Program} {flow : Flow}
    (hempty : body.code.isEmpty) (h : flowOf body oracle p = .ok flow q) :
    Controls body flow (visits body oracle p) := by
  obtain ⟨hvisits, hstmts, hedges⟩ := flowOf_empty hempty h
  have hcode : body.code.toList = [] := by simpa using hempty
  rw [hvisits]
  refine ⟨hcode.symm, by simp, by simp, by simp, by simp [Layout.ofVisits], hstmts, [], ?_, .nil⟩
  rw [if_pos hempty, hedges]

/-- Control flow is preserved: if the oracle counts more than one predecessor wherever the body has
more than one, every lowering that succeeds gives a graph that represents the transfers of control of
the body, one for one. -/
theorem flowOf_controls (body : Body) (oracle : PredecessorOracle) (p : Program)
    (hjoins : ∀ index, 1 < body.predecessorOracle.count index → 1 < oracle.count index)
    {flow : Flow} {q : Program} (h : flowOf body oracle p = .ok flow q) :
    Controls body flow (visits body oracle p) := by
  by_cases hempty : body.code.isEmpty
  · exact controls_empty hempty h
  · obtain ⟨entered, t, block, hpasses, rfl, rfl, hentered, hopen, hstarts, hstmts, hedges, -⟩ :=
      flowOf_passes hempty h
    generalize visits body oracle p = vs at hpasses
    have hpos : 0 < body.code.size := by
      rw [Array.isEmpty_iff_size_eq_zero] at hempty
      omega
    have hinstrs : vs.map Visit.instr = body.code.toList := hpasses.instrs
    have hlength : vs.length = body.code.size := by
      rw [← Array.length_toList, ← hinstrs, List.length_map]
    obtain ⟨hfirst, hhome, hplaced⟩ := hpasses.placed_visits hjoins hentered hopen hstarts
    have hpassed := hpasses.passedOver hentered hopen
    have hmapped := hpassed.standing.mapped
    have hcovers : (Layout.ofVisits vs).Covers t.draft := fun index other hother =>
      hplaced.starts hmapped (hmapped.lt hother) hother
    obtain ⟨exits, hlinks, hleaves⟩ := hpasses.exits hentered hopen hcovers hhome
    refine ⟨hinstrs, fun v hv => ?_, fun v hv => ?_, hpassed.segments, ?_, fun other => ?_,
      exits, ?_, hleaves⟩
    · obtain ⟨other, hother, hlt, hne⟩ := hpassed.homes v hv
      exact ⟨other, hother, decide_eq_true hlt, hne⟩
    · have hv' : vs[0]?.bind Visit.home = some block := hfirst
      rw [hv, Option.bind_some] at hv'
      rw [hv', ← hstarts, hentered.mapped.entry hpos]
    · intro first middle last other hmiddle hlast hhome₁ hhome₂
      refine hplaced.contiguous hmapped hmiddle hlast ?_ hhome₁ hhome₂
      by_contra hcount
      have hnone : vs[last]? = none := List.getElem?_eq_none (by omega)
      simp [Layout.ofVisits, hnone] at hhome₂
    · exact (hpassed.stmts other).trans (by rw [hstmts, List.nil_append])
    · rw [if_neg hempty]
      exact hlinks.trans (by rw [hedges, List.nil_append])

/-- A loop: a conditional jump that leaves it, a jump back, and a return. -/
def loopExample : Body where
  method := ⟨"Loop", "run", [.boolean], .prim .void⟩
  isStatic := true
  isSynchronized := false
  locals := #[⟨"again", .boolean⟩]
  code := #[⟨.branch (.slot 0) 2, .unknown⟩, ⟨.goto 0, .unknown⟩, ⟨.retVoid, .unknown⟩]

/-- The loop is lowered, and its control flow is preserved. -/
theorem flowOf_controls_loop : ∃ flow q,
    flowOf loopExample loopExample.predecessorOracle (.new .standard) = .ok flow q ∧
      Controls loopExample flow (visits loopExample loopExample.predecessorOracle (.new .standard)) := by
  obtain ⟨flow, h⟩ :=
    exists_ok (r := flowOf loopExample loopExample.predecessorOracle (.new .standard)) (by decide +kernel)
  exact ⟨flow, _, h, flowOf_controls _ _ _ (fun _ h => h) h⟩

end Session

end GuardedFlow
