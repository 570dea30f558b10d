import GuardedFlow.Proofs.Lowering.Control
import GuardedFlow.Proofs.Lowering.Failures

/-!
# Blocks and leaders

The leaders of a stream are its first instruction, every instruction after one that breaks its block,
and every instruction that two others can precede. A pass never computes them. It asks for blocks when a
jump leads ahead, when control cannot go on in the open block, and when the oracle counts a join; with
the oracle of the body these are the leaders, and no others: `Session.flowOf_leaders`.
-/

namespace GuardedFlow

/-- Whether the block of an instruction ends with it: control does not fall through, a call ends the
path, or a conditional jump leads to another instruction than the next one. -/
def Op.breaks (idioms : List Idiom) (next : Nat) (op : Op Nat) : Bool :=
  !op.fallsThrough || (op.pathEnd idioms).isSome || op.jumpTargets.any (· ≠ next)

/-- Whether an instruction is a leader: it is the first one, the one before it breaks its block, or it
has two different predecessors. -/
def Body.leads (body : Body) (idioms : List Idiom) : Nat → Bool
  | 0 => true
  | before + 1 =>
    body.code[before]?.any (·.op.breaks idioms (before + 1)) ||
      (body.transfers.predecessors (before + 1)).any fun i =>
        (body.transfers.predecessors (before + 1)).any (i ≠ ·)

/-- The blocks of a control-flow graph are those of the leaders of its body. -/
structure Leaders (body : Body) (idioms : List Idiom) (flow : Flow) (vs : List Visit) : Prop where
  /-- Every instruction is visited once, in the order of the stream. -/
  instrs : vs.map Visit.instr = body.code.toList
  /-- A block starts at an instruction exactly if it is a leader. -/
  starts : ∀ index < body.code.size,
    (∃ block, (Layout.ofVisits vs).starts index block) ↔ body.leads idioms index = true
  /-- Every block but the sink starts at an instruction. -/
  owned : ∀ block, flow.graph.hasNode block → block ≠ Flow.sink →
    ∃ index < body.code.size, (Layout.ofVisits vs).starts index block
  /-- There is one block for every leader, and the sink. -/
  count : flow.graph.nodeCount = ((List.range body.code.size).filter (body.leads idioms)).length + 1
  /-- A block holds the statements of the instructions from its leader up to the next leader. -/
  stmts : ∀ leader next block, (Layout.ofVisits vs).starts leader block → leader < next →
    next ≤ body.code.size → (∀ index, leader < index → index < next → body.leads idioms index = false) →
    (next < body.code.size → body.leads idioms next = true) →
    flow.graph.stmtsAt block = ((vs.drop leader).take (next - leader)).flatMap Visit.segment
  /-- A statement is located at its instruction. -/
  locations : ∀ v ∈ vs, ∀ stmt ∈ v.segment, stmt.location = v.instr.location
  /-- A stream without jumps, in which no path ends before the last instruction, has one block. -/
  straight : (∀ index instr, body.code[index]? = some instr → instr.op.jumpTargets = [] ∧
    (index + 1 < body.code.size → instr.op.pathEnd idioms = none)) → flow.graph.nodeCount = 2

namespace Body

variable {body : Body} {idioms : List Idiom} {index before target : Nat} {instr : Instr}

/-- The instruction after one that breaks its block is a leader. -/
theorem leads_of_breaks (hinstr : body.code[before]? = some instr)
    (h : instr.op.breaks idioms (before + 1) = true) : body.leads idioms (before + 1) = true := by
  simp only [leads, hinstr, Option.any_some, h, Bool.true_or]

/-- An instruction that is no leader follows one that does not break its block, and it is no join. -/
theorem leads_succ : body.leads idioms (before + 1) = true ↔
    (∃ instr, body.code[before]? = some instr ∧ instr.op.breaks idioms (before + 1) = true) ∨
      1 < body.predecessorOracle.count (before + 1) := by
  rw [body.one_lt_count_iff]
  simp only [leads, Bool.or_eq_true, Option.any_eq_true, List.any_eq_true, decide_eq_true_eq]

/-- An instruction that the oracle of the body counts as a join is a leader. -/
theorem leads_of_join (h : 1 < body.predecessorOracle.count index) :
    body.leads idioms index = true := by
  cases index with
  | zero => rfl
  | succ before => exact leads_succ.mpr (.inr h)

/-- The target of a jump that breaks its block is a leader. -/
theorem leads_of_jump (hinstr : body.code[index]? = some instr)
    (hbreaks : instr.op.breaks idioms (index + 1) = true) (htarget : target ∈ instr.op.jumpTargets)
    (hlt : target < body.code.size) : body.leads idioms target = true := by
  cases target with
  | zero => rfl
  | succ before =>
    by_cases hbefore : before = index
    · subst hbefore
      exact leads_of_breaks hinstr hbreaks
    · obtain ⟨prior, hprior⟩ : ∃ prior, body.code[before]? = some prior :=
        ⟨_, Array.getElem?_eq_getElem (by omega)⟩
      by_cases hfalls : prior.op.fallsThrough
      · -- both the instruction before it and the jump can precede it
        have hnext : before + 1 ∈ body.transferTargets before prior := by
          have hnext : body.next? before = some (before + 1) := by rw [next?, if_pos hlt]
          simp [transferTargets, hfalls, hnext]
        have hjump : before + 1 ∈ body.transferTargets index instr := List.mem_append_left _ htarget
        exact leads_of_join (body.one_lt_count hprior hinstr hbefore hnext hjump hlt)
      · exact leads_of_breaks hprior (by simp [Op.breaks, hfalls])

end Body

/-- How a pass stands after an operation in a block. -/
inductive GoesOn (index : Nat) (block : BlockId) (op : Op Nat) (s t : LoweringState) : Prop where
  /-- The block is still open, and no other block was asked for. -/
  | within (hbreaks : op.breaks s.program.idioms (index + 1) = false) (hopen : t.openBlock = some block)
      (hstarts : t.draft.starts = s.draft.starts)
  /-- At most the block of the next instruction is open, and at most the blocks of the jump targets and
  of the next instruction were added. -/
  | beyond (hbreaks : op.breaks s.program.idioms (index + 1) = true)
      (hnext : ∀ rest, t.openBlock = some rest → t.draft.blockAt? (index + 1) = some rest)
      (hadded : ∀ k other, t.draft.blockAt? k = some other →
        s.draft.blockAt? k = some other ∨ k ∈ op.jumpTargets ∨ k = index + 1)

namespace Lower

variable {body : Body} {index : Nat} {block : BlockId} {s t : LoweringState} {op : Op Nat}

/-- A step between two jumps breaks its block if it ends the path. -/
theorem goesOn_of_emits {out : List Stmt} {fin : Option PathEnd} (hopen : s.openBlock = some block)
    (hemits : Emits s out fin t) (hbreaks : op.breaks s.program.idioms (index + 1) = fin.isSome) :
    GoesOn index block op s t := by
  have hopen' := hemits.openBlock
  cases fin with
  | none => exact .within hbreaks (hopen'.trans hopen) hemits.starts
  | some fin =>
    have hclosed : t.openBlock = none := hopen'
    refine .beyond hbreaks (fun rest hrest => ?_) fun k other hother => .inl ?_
    · rw [hclosed] at hrest
      contradiction
    · rw [← hother, Draft.blockAt?, Draft.blockAt?, hemits.starts]

/-- After a jump, no block is open, and no other block than that of its target was added. -/
theorem goto_goesOn {target : Nat} (hrun : goto target s = .ok () t) :
    GoesOn index block (.goto target) s t := by
  obtain ⟨hlt, source, other, d, -, hlocated, rfl⟩ := goto_ok hrun
  refine .beyond rfl (fun _ h => (by cases h)) fun k c hc => ?_
  by_cases hk : k = target
  · exact .inr (.inl (by simp [Op.jumpTargets, hk]))
  · left
    rw [← (hlocated.extended source).others k (by simpa using hk)]
    exact hc

/-- After a conditional jump, at most the block of the next instruction is open, and no other blocks than
those of it and of the target were added. -/
theorem branch_goesOn {condition : Value} {target : Nat} (hs : s.Standing body)
    (hopen : s.openBlock = some block) (hrun : branch index condition target s = .ok () t) :
    GoesOn index block (.branch condition target) s t := by
  obtain ⟨hlt, guard, u, hguard, hrest⟩ := branch_ok hrun
  obtain ⟨out, hemits, -⟩ := (operand_ends condition).ok rfl hguard
  have hbody : u.draft.body = body := hemits.body.trans hs.mapped.lowers
  rw [hbody] at hrest
  rcases hrest with ⟨hnext, rfl⟩ | ⟨hnext, source, other, d, hsource, hlocated, hrest⟩
  · obtain ⟨rfl, -⟩ := Body.next?_eq_some.mp hnext
    exact goesOn_of_emits hopen hemits (by simp [Op.breaks, Op.fallsThrough, Op.pathEnd, Op.jumpTargets])
  · have hlt : target < body.code.size := hs.mapped.lowers ▸ hlt
    have hbreaks : (Op.branch condition target).breaks s.program.idioms (index + 1) = true := by
      have hne : target ≠ index + 1 := by
        rintro rfl
        exact hnext (Body.next?_eq_some.mpr ⟨rfl, hlt⟩)
      simp [Op.breaks, Op.jumpTargets, hne]
    have hold {k : Nat} {c : BlockId} (hc : d.blockAt? k = some c) :
        s.draft.blockAt? k = some c ∨ k ∈ (Op.branch condition target).jumpTargets := by
      by_cases hk : k = target
      · exact .inr (by simp [Op.jumpTargets, hk])
      · left
        rw [(hlocated.extended source).others k (by simpa using hk), Draft.blockAt?, hemits.starts] at hc
        exact hc
    rcases hrest with ⟨-, rfl⟩ | ⟨next, rest, e, hsome, hlocated', rfl⟩
    · exact .beyond hbreaks (fun _ h => (by cases h)) fun k c hc => (hold hc).imp_right .inl
    · obtain ⟨rfl, hlt'⟩ := Body.next?_eq_some.mp hsome
      refine .beyond hbreaks (fun c hc => ?_) fun k c hc => ?_
      · cases hc
        apply hlocated'.found
        change index + 1 < d.starts.size
        rw [(hlocated.mapped (standing_of_emits hs hemits hopen).mapped).size]
        exact hlt'
      · by_cases hk : k = index + 1
        · exact .inr (.inr hk)
        · have hothers := (hlocated'.extended source).others k (by simpa using hk)
          exact (hold (hothers.symm.trans hc)).imp_right .inl

/-- The open block goes on after an operation exactly if the operation does not break it. -/
theorem operation_goesOn (hs : s.Standing body) (hopen : s.openBlock = some block)
    (hrun : operation index op s = .ok () t) : GoesOn index block op s t := by
  have hplain (hjump : op.jumpTargets = [])
      (hfalls : op.pathEnd s.program.idioms = none → op.fallsThrough = true) :
      GoesOn index block op s t := by
    obtain ⟨out, hemits, -⟩ := (operation_ends index op hjump).ok rfl hrun
    apply goesOn_of_emits hopen hemits
    cases hfin : op.pathEnd s.program.idioms with
    | none => simp [Op.breaks, hfin, hfalls hfin, hjump]
    | some fin => simp [Op.breaks, hfin]
  cases op with
  | goto target => exact goto_goesOn hrun
  | branch condition target => exact branch_goesOn hs hopen hrun
  | ret value =>
    refine hplain rfl fun hfin => ?_
    rw [Op.pathEnd, Option.or_eq_none_iff] at hfin
    cases hfin.2
  | retVoid => exact hplain rfl fun hfin => by cases hfin
  | tableSwitch | lookupSwitch | subroutineReturn | throw => cases hrun
  | _ => exact hplain rfl fun _ => rfl

/-- The statements of an operation are located at the current instruction. -/
theorem operation_located (hs : s.Standing body) (hopen : s.openBlock = some block)
    (hrun : operation index op s = .ok () t) :
    ∀ stmt ∈ s.appended t, stmt.location = s.draft.location :=
  (operation_went hs hopen hrun).shows.located

/-- Entering an instruction asks for its block at most, and only if no block is open or the oracle
counts a join. -/
theorem enter_added {oracle : PredecessorOracle} (hrun : enter oracle index s = .ok () t) {k : Nat}
    {other : BlockId} (hother : t.draft.blockAt? k = some other) :
    s.draft.blockAt? k = some other ∨ k = index ∧ (s.openBlock = none ∨ 1 < oracle.count index) := by
  have hold {c : BlockId} {d : Draft} (hlocated : (s.draft.moveTo index).Located index c d)
      (hother : d.blockAt? k = some other) : k ≠ index → s.draft.blockAt? k = some other := by
    intro hk
    rw [(hlocated.extended c).others k (by simpa using hk)] at hother
    exact hother
  by_cases hk : k = index
  · subst hk
    rcases enter_ok hrun with ⟨hclosed, -⟩ | ⟨c, -, rfl, -⟩ | ⟨source, c, d, -, hlocated, -, hcount, rfl⟩
    · exact .inr ⟨rfl, .inl hclosed⟩
    · exact .inl hother
    · cases hstarts : s.draft.blockAt? k with
      | none => exact .inr ⟨rfl, .inr (hcount hstarts)⟩
      | some start =>
        have hkept := hlocated.kept (show (s.draft.moveTo k).blockAt? k = some start from hstarts)
        exact .inl (hkept.symm.trans hother)
  · left
    rcases enter_ok hrun with ⟨-, c, d, hlocated, rfl⟩ | ⟨c, -, rfl, -⟩ | ⟨source, c, d, -, hlocated, -, -, rfl⟩
    · exact hold hlocated hother hk
    · exact hother
    · exact hold hlocated hother hk

end Lower

/-- All blocks of a draft start at leaders. -/
def Draft.Led (body : Body) (idioms : List Idiom) (d : Draft) : Prop :=
  ∀ index block, d.blockAt? index = some block → body.leads idioms index = true

/-- An operation asks for the blocks of leaders only: of the targets of its jump and of the next
instruction. -/
theorem Draft.Led.goesOn {body : Body} {idioms : List Idiom} {index : Nat} {instr : Instr}
    {s t : LoweringState} {block : BlockId} (h : s.draft.Led body idioms)
    (hidioms : s.program.idioms = idioms) (hinstr : body.code[index]? = some instr)
    (ht : t.Standing body) (hgo : GoesOn index block instr.op s t) : t.draft.Led body idioms := by
  intro k other hother
  have hlt := ht.mapped.lt hother
  cases hgo with
  | within _ _ hstarts =>
    rw [Draft.blockAt?, hstarts] at hother
    exact h k other hother
  | beyond hbreaks _ hadded =>
    rw [hidioms] at hbreaks
    rcases hadded k other hother with hold | hjump | rfl
    · exact h k other hold
    · exact Body.leads_of_jump hinstr hbreaks hjump hlt
    · exact Body.leads_of_breaks hinstr hbreaks

namespace Passes

variable {body : Body} {oracle : PredecessorOracle} {idioms : List Idiom} {index : Nat}
  {s t : LoweringState} {vs : List Visit} {block : BlockId}

/-- A pass adds blocks for leaders only, and the instruction after one that breaks its block gets one. -/
theorem led (h : Passes body oracle index s vs t) (hs : s.Standing body) (hopen : s.openBlock = some block)
    (hidioms : s.program.idioms = idioms)
    (hjoins : ∀ k < body.code.size, 1 < oracle.count k → body.leads idioms k = true)
    (hled : s.draft.Led body idioms) :
    t.draft.Led body idioms ∧ ∀ k instr, index ≤ k → body.code[k]? = some instr →
      k + 1 < body.code.size → instr.op.breaks idioms (k + 1) = true →
      ∃ other, t.draft.blockAt? (k + 1) = some other := by
  induction h generalizing block with
  | @last index instr entered left closed hinstr hlast hrun hclose =>
    obtain ⟨hleft, -⟩ := Lower.operation_departs hs hopen hrun
    have hgo := Lower.operation_goesOn hs hopen hrun
    have hnonempty : ¬ body.code.isEmpty := by simp [← Array.size_eq_zero_iff, hlast]
    obtain ⟨-, -, more, hextends, -⟩ := Lower.close_closes hnonempty hclose
    refine ⟨fun k other hother => ?_, fun k _ hk _ hlt => by omega⟩
    rw [(hextends 0).others k List.not_mem_nil] at hother
    exact hled.goesOn hidioms hinstr hleft hgo k other hother
  | @step index instr entered left next closed visits hinstr hnext hrun henter hrest ih =>
    obtain ⟨hleft, hidioms', -⟩ := Lower.operation_departs hs hopen hrun
    have hgo := Lower.operation_goesOn hs hopen hrun
    have hleftLed := hled.goesOn hidioms hinstr hleft hgo
    obtain ⟨hnext', hprogram, other, more, hopen', hextends, harrives⟩ :=
      Lower.enter_arrives hleft hnext henter
    have hnextLed : next.draft.Led body idioms := by
      intro k c hc
      rcases Lower.enter_added henter hc with hold | ⟨rfl, hclosed | hcount⟩
      · exact hleftLed k c hold
      · cases hgo with
        | within _ hstill _ =>
          rw [hstill] at hclosed
          contradiction
        | beyond hbreaks _ _ => exact Body.leads_of_breaks hinstr (hidioms ▸ hbreaks)
      · exact hjoins _ hnext hcount
    obtain ⟨hclosedLed, hstarts⟩ := ih hnext' hopen' (by rw [hprogram, hidioms', hidioms]) hnextLed
    refine ⟨hclosedLed, fun k instr' hk hinstr' hlt hbreaks => ?_⟩
    rcases Nat.eq_or_lt_of_le hk with rfl | hk
    · rw [hinstr] at hinstr'
      cases hinstr'
      have hkept := (hrest.passedOver hnext' hopen').kept
      cases hgo with
      | within hgoes _ _ =>
        rw [hidioms, hbreaks] at hgoes
        contradiction
      | beyond _ hopened _ =>
        refine ⟨other, hkept _ _ ?_⟩
        cases harrives with
        | opened _ hfound | led _ _ _ hfound => exact hfound
        | stayed hstill _ => exact (hextends 0).kept _ _ (hopened other hstill)
    · exact hstarts k instr' hk hinstr' hlt hbreaks

/-- The statements of a visit are located at its instruction. -/
theorem located (h : Passes body oracle index s vs t) (hs : s.Standing body)
    (hopen : s.openBlock = some block) (hcurrent : s.draft.current = some index) :
    ∀ v ∈ vs, ∀ stmt ∈ v.segment, stmt.location = v.instr.location := by
  have hfirst {index : Nat} {instr : Instr} {entered left : LoweringState} {block : BlockId}
      (hs : entered.Standing body) (hopen : entered.openBlock = some block)
      (hcurrent : entered.draft.current = some index) (hinstr : body.code[index]? = some instr)
      (hrun : Lower.operation index instr.op entered = .ok () left) :
      ∀ stmt ∈ Visit.segment ⟨instr, entered, left⟩, stmt.location = instr.location := by
    intro stmt hstmt
    rw [Lower.operation_located hs hopen hrun stmt hstmt]
    simp [Draft.location, hcurrent, hs.mapped.lowers, hinstr]
  induction h generalizing block with
  | last hinstr _ hrun _ =>
    intro v hv
    obtain rfl := List.mem_singleton.mp hv
    exact hfirst hs hopen hcurrent hinstr hrun
  | step hinstr hnext hrun henter hrest ih =>
    intro v hv
    rcases List.mem_cons.mp hv with rfl | hv
    · exact hfirst hs hopen hcurrent hinstr hrun
    · obtain ⟨hleft, -⟩ := Lower.operation_departs hs hopen hrun
      obtain ⟨hnext', -, other, more, hopen', -⟩ := Lower.enter_arrives hleft hnext henter
      exact ih hnext' hopen' (Lower.enter_current henter) v hv

/-- Without jumps and ends of the path, an instruction that was lowered falls through. -/
theorem fallsThrough (h : Passes body oracle index s vs t) {k : Nat} {instr : Instr} (hk : index ≤ k)
    (hinstr : body.code[k]? = some instr) (hjump : instr.op.jumpTargets = [])
    (hend : instr.op.pathEnd idioms = none) : instr.op.fallsThrough = true := by
  have hoperation {op : Op Nat} {index : Nat} {entered left : LoweringState}
      (hrun : Lower.operation index op entered = .ok () left) (hjump : op.jumpTargets = [])
      (hend : op.pathEnd idioms = none) : op.fallsThrough = true := by
    cases op with
    | goto | tableSwitch | lookupSwitch => simp [Op.jumpTargets] at hjump
    | ret value =>
      rw [Op.pathEnd, Option.or_eq_none_iff] at hend
      cases hend.2
    | retVoid => cases hend
    | subroutineReturn | throw => cases hrun
    | _ => rfl
  induction h with
  | last hfirst hlast hrun _ =>
    obtain ⟨hlt, -⟩ := Array.getElem?_eq_some_iff.mp hinstr
    obtain rfl : k = _ := Nat.le_antisymm (by omega) hk
    rw [hfirst] at hinstr
    cases hinstr
    exact hoperation hrun hjump hend
  | step hfirst _ hrun _ _ ih =>
    rcases Nat.eq_or_lt_of_le hk with rfl | hk
    · rw [hfirst] at hinstr
      cases hinstr
      exact hoperation hrun hjump hend
    · exact ih hk

end Passes

/-- The instructions of a block are those from the one that it starts at up to the next one that a block
starts at. -/
theorem Placed.home_iff {body : Body} {oracle : PredecessorOracle} {home : Nat → Option BlockId}
    {count leader next : Nat} {d : Draft} {block : BlockId} (h : Placed body oracle home count d)
    (hd : d.Mapped body) (hstarts : d.blockAt? leader = some block) (hlt : leader < next)
    (hnext : next ≤ count) (hnone : ∀ k, leader < k → k < next → d.blockAt? k = none)
    (hsome : next < count → ∃ other, d.blockAt? next = some other) {index : Nat} (hindex : index < count) :
    home index = some block ↔ leader ≤ index ∧ index < next := by
  constructor
  · intro hhome
    obtain ⟨first, hle, hfirst, hbetween⟩ := h.leader hindex hhome
    obtain rfl := hd.injective first leader block hfirst hstarts
    refine ⟨hle, Nat.lt_of_not_le fun hge => ?_⟩
    obtain ⟨other, hother⟩ := hsome (by omega)
    obtain ⟨hhome', -⟩ := h.starts hd (by omega) hother
    rw [hbetween next (by omega) hge] at hhome'
    cases hhome'
    have := hd.injective first next block hstarts hother
    omega
  · rintro ⟨hge, hindex'⟩
    obtain ⟨distance, rfl⟩ := Nat.exists_eq_add_of_le hge
    induction distance with
    | zero => exact (h.starts hd hindex hstarts).1
    | succ distance ih =>
      obtain ⟨other, hother, hfound | ⟨-, -, before, instr, hbefore, hhome, -⟩⟩ := h _ hindex
      · rw [hnone _ (by omega) hindex'] at hfound
        contradiction
      · obtain rfl : before = leader + distance := by omega
        rw [hother, ← hhome]
        exact ih (by omega) (by omega) (by omega)

/-- The elements of a list at the positions of an interval. -/
theorem filter_eq_take_drop {α : Type} (l : List α) (p : α → Bool) {low high : Nat}
    (h : ∀ i a, l[i]? = some a → (p a = true ↔ low ≤ i ∧ i < high)) :
    l.filter p = (l.drop low).take (high - low) := by
  induction l generalizing low high with
  | nil => simp
  | cons a l ih =>
    have hhead := h 0 a rfl
    have htail (i : Nat) (b : α) (hb : l[i]? = some b) : p b = true ↔ low ≤ i + 1 ∧ i + 1 < high :=
      h (i + 1) b hb
    cases low with
    | succ low =>
      have hfalse : p a = false := by simpa using hhead
      rw [List.filter_cons_of_neg (by simp [hfalse]), List.drop_succ_cons,
        ih fun i b hb => (htail i b hb).trans (by omega : _ ↔ low ≤ i ∧ i < high - 1)]
      congr 1
      omega
    | zero =>
      cases high with
      | zero =>
        have hnone : ∀ b ∈ a :: l, ¬ p b = true := by
          intro b hb
          obtain ⟨i, hi⟩ := List.getElem?_of_mem hb
          simp [h i b hi]
        rw [List.filter_eq_nil_iff.mpr hnone]
        rfl
      | succ high =>
        have htrue : p a = true := by simpa using hhead
        rw [List.filter_cons_of_pos htrue,
          ih fun i b hb => (htail i b hb).trans (by omega : _ ↔ 0 ≤ i ∧ i < high)]
        rfl

/-- The visits in a block are those of the instructions from the one that it starts at up to the next one
that a block starts at. -/
theorem Placed.filter_home {body : Body} {oracle : PredecessorOracle} {vs : List Visit}
    {count leader next : Nat} {d : Draft} {block : BlockId}
    (h : Placed body oracle (Layout.ofVisits vs).home count d) (hd : d.Mapped body)
    (hlength : vs.length = count)
    (hhome : ∀ p ∈ vs.zipIdx, (Layout.ofVisits vs).home p.2 = p.1.home)
    (hstarts : d.blockAt? leader = some block) (hlt : leader < next) (hnext : next ≤ count)
    (hnone : ∀ k, leader < k → k < next → d.blockAt? k = none)
    (hsome : next < count → ∃ other, d.blockAt? next = some other) :
    (vs.filter fun v => v.home = some block) = (vs.drop leader).take (next - leader) := by
  refine filter_eq_take_drop vs _ fun index v hv => ?_
  have hindex : index < count := by
    rw [← hlength]
    exact (List.getElem?_eq_some_iff.mp hv).1
  have hat : (Layout.ofVisits vs).home index = v.home :=
    hhome (v, index) (List.mem_zipIdx_iff_getElem?.mpr hv)
  rw [decide_eq_true_eq, ← hat]
  exact h.home_iff hd hstarts hlt hnext hnone hsome hindex

/-- The blocks in the map of a draft start where their first instructions stand. -/
theorem Placed.starts_iff {body : Body} {oracle : PredecessorOracle} {vs : List Visit} {count index : Nat}
    {d : Draft} {block : BlockId} (h : Placed body oracle (Layout.ofVisits vs).home count d)
    (hd : d.Mapped body) (hindex : index < count) :
    (Layout.ofVisits vs).starts index block ↔ d.blockAt? index = some block := by
  constructor
  · rintro ⟨hhome, hfirst⟩
    obtain ⟨first, hle, hstarts, hbetween⟩ := h.leader hindex hhome
    rcases Nat.eq_or_lt_of_le hle with rfl | hlt
    · exact hstarts
    · exact absurd (hbetween first (Nat.le_refl _) hle) (hfirst first hlt)
  · exact h.starts hd hindex

/-- With the oracle of the body, a block starts at an instruction exactly if that is a leader. -/
theorem Placed.leads_iff {body : Body} {home : Nat → Option BlockId} {idioms : List Idiom} {d : Draft}
    (h : Placed body body.predecessorOracle home body.code.size d) (hd : d.Mapped body)
    (hled : d.Led body idioms)
    (hbroken : ∀ k instr, body.code[k]? = some instr → k + 1 < body.code.size →
      instr.op.breaks idioms (k + 1) = true → ∃ other, d.blockAt? (k + 1) = some other)
    {index : Nat} (hindex : index < body.code.size) :
    (∃ block, d.blockAt? index = some block) ↔ body.leads idioms index = true := by
  constructor
  · rintro ⟨block, hblock⟩
    exact hled index block hblock
  · intro hleads
    cases index with
    | zero => exact ⟨_, hd.entry hindex⟩
    | succ before =>
      rcases Body.leads_succ.mp hleads with ⟨instr, hinstr, hbreaks⟩ | hcount
      · exact hbroken before instr hinstr hindex hbreaks
      · obtain ⟨block, -, hstarts | ⟨-, hjoins, -⟩⟩ := h _ hindex
        · exact ⟨block, hstarts⟩
        · omega

/-- If every block but the sink starts at an instruction, there are as many as instructions at which a
block starts. -/
theorem Draft.Awaits.count {body : Body} {first : Nat} {d : Draft} (h : d.Awaits body first)
    (hpos : 0 < body.code.size) {test : Nat → Bool}
    (htest : ∀ index < body.code.size, (∃ block, d.blockAt? index = some block) ↔ test index = true) :
    d.graph.nodeCount = ((List.range body.code.size).filter test).length + 1 := by
  have hsome {index : Nat} (hindex : index ∈ (List.range body.code.size).filter test) :
      ∃ block, d.blockAt? index = some block := by
    obtain ⟨hlt, hleads⟩ := List.mem_filter.mp hindex
    exact (htest index (List.mem_range.mp hlt)).mpr hleads
  have hinjective : (((List.range body.code.size).filter test).map fun index =>
      (d.blockAt? index).getD Flow.sink).Nodup := by
    apply List.Nodup.map_on _ (List.nodup_range.filter _)
    intro i hi j hj heq
    obtain ⟨block, hblock⟩ := hsome hi
    obtain ⟨other, hother⟩ := hsome hj
    rw [hblock, hother] at heq
    cases heq
    exact h.mapped.injective i j block hblock hother
  have hblocks : (((List.range body.code.size).filter test).map fun index =>
      (d.blockAt? index).getD Flow.sink).Perm ((List.range d.graph.nodeCount).erase Flow.sink) := by
    apply (List.perm_ext_iff_of_nodup hinjective (List.nodup_range.erase _)).mpr
    intro block
    rw [List.nodup_range.mem_erase_iff, List.mem_map, List.mem_range]
    constructor
    · rintro ⟨index, hindex, rfl⟩
      obtain ⟨block, hblock⟩ := hsome hindex
      obtain ⟨hlt, hne⟩ := h.mapped.valid index block hblock
      rw [hblock]
      exact ⟨hne, hlt⟩
    · rintro ⟨hne, hlt⟩
      obtain ⟨index, hindex⟩ := h.owned hpos block hlt hne
      have hsize := h.mapped.lt hindex
      refine ⟨index, List.mem_filter.mpr ⟨List.mem_range.mpr hsize, ?_⟩, by rw [hindex]; rfl⟩
      exact (htest index hsize).mp ⟨block, hindex⟩
  have hlength := hblocks.length_eq
  rw [List.length_map, List.length_erase_of_mem (List.mem_range.mpr h.mapped.sink),
    List.length_range] at hlength
  have hnodes : 0 < d.graph.nodeCount := Nat.zero_lt_of_lt h.mapped.sink
  omega

/-- A stream without jumps, in which control falls through everywhere before the end, has one leader. -/
theorem Body.leads_straight {body : Body} {idioms : List Idiom} (hpos : 0 < body.code.size)
    (hjump : ∀ (index : Nat) (instr : Instr), body.code[index]? = some instr → instr.op.jumpTargets = [])
    (hfalls : ∀ (index : Nat) (instr : Instr), body.code[index]? = some instr → index + 1 < body.code.size →
      instr.op.fallsThrough = true ∧ instr.op.pathEnd idioms = none) :
    (List.range body.code.size).filter (body.leads idioms) = [0] := by
  have hbefore {index k : Nat} {instr : Instr} (hinstr : body.code[index]? = some instr)
      (hk : k ∈ body.transferTargets index instr) : k = index + 1 := by
    simp only [transferTargets, hjump index instr hinstr, List.nil_append] at hk
    split at hk
    · rw [Option.mem_toList] at hk
      exact (next?_eq_some.mp hk).1
    · cases hk
  obtain ⟨last, hlast⟩ : ∃ last, body.code.size = last + 1 := ⟨_, (Nat.succ_pred_eq_of_pos hpos).symm⟩
  rw [hlast, List.range_succ_eq_map, List.filter_cons_of_pos rfl]
  congr 1
  apply List.filter_eq_nil_iff.mpr
  intro index hindex hleads
  obtain ⟨before, hlt, rfl⟩ := List.mem_map.mp hindex
  have hlt : before + 1 < body.code.size := by
    have := List.mem_range.mp hlt
    omega
  rcases leads_succ.mp hleads with ⟨instr, hinstr, hbreaks⟩ | hcount
  · obtain ⟨hfall, hend⟩ := hfalls before instr hinstr hlt
    simp [Op.breaks, hjump before instr hinstr, hfall, hend] at hbreaks
  · obtain ⟨i, hi, j, hj, hne⟩ := body.one_lt_count_iff.mp hcount
    obtain ⟨first, hfirst, hi⟩ := (body.mem_predecessors hlt).mp hi
    obtain ⟨second, hsecond, hj⟩ := (body.mem_predecessors hlt).mp hj
    exact hne (Nat.succ.inj ((hbefore hfirst hi).symm.trans (hbefore hsecond hj)))

namespace Session

/-- Entering the first instruction starts no block elsewhere. -/
theorem led_enter_startOf {body : Body} {oracle : PredecessorOracle} {p : Program}
    {entered : LoweringState} (h : Lower.enter oracle 0 (startOf body p) = .ok () entered) :
    entered.draft.Led body p.idioms := by
  intro index other hother
  rcases Lower.enter_added h hother with hold | ⟨rfl, -⟩
  · have hold : (Draft.start body p.supply).1.blockAt? index = some other := hold
    rw [Draft.blockAt?_start] at hold
    split at hold
    · rename_i hzero
      rw [hzero.1]
      rfl
    · cases hold
  · rfl

/-- The blocks of a lowering with the oracle of the body are those of its leaders. -/
theorem flowOf_leaders (body : Body) (p : Program) (hempty : ¬ body.code.isEmpty) {flow : Flow}
    {q : Program} (h : flowOf body body.predecessorOracle p = .ok flow q) :
    Leaders body p.idioms flow (visits body body.predecessorOracle p) := by
  obtain ⟨entered, t, block, hpasses, rfl, rfl, hentered, hopen, hstarts, hstmts, -, henter⟩ :=
    flowOf_passes hempty h
  generalize visits body body.predecessorOracle p = vs at hpasses
  have hpos : 0 < body.code.size := by
    rw [Array.isEmpty_iff_size_eq_zero] at hempty
    omega
  obtain ⟨-, hprogram, -⟩ := Lower.enter_arrives (standing_startOf body p) hpos henter
  have hidioms : entered.program.idioms = p.idioms := by rw [hprogram]; rfl
  have hinstrs : vs.map Visit.instr = body.code.toList := hpasses.instrs
  have hlength : vs.length = body.code.size := by
    rw [← Array.length_toList, ← hinstrs, List.length_map]
  obtain ⟨hawaits, -⟩ := hpasses.shaped ((pending_startOf body p).enter hpos henter).1 hopen
  have hmapped := hawaits.mapped
  obtain ⟨-, hhome, hplaced⟩ := hpasses.placed_visits (fun _ hjoin => hjoin) hentered hopen hstarts
  obtain ⟨hled, hbroken⟩ := hpasses.led hentered hopen hidioms
    (fun k _ hjoin => Body.leads_of_join hjoin) (led_enter_startOf henter)
  have hleads {index : Nat} (hindex : index < body.code.size) :=
    hplaced.leads_iff hmapped hled (fun k instr hinstr => hbroken k instr (Nat.zero_le k) hinstr) hindex
  have hcount := hawaits.count hpos fun index hindex => hleads hindex
  refine ⟨hinstrs, fun index hindex => ?_, fun other hother hne => ?_, hcount,
    fun leader next other hleader hlt hnext hnone hsome => ?_,
    hpasses.located hentered hopen (Lower.enter_current henter), fun hstraight => ?_⟩
  · rw [← hleads hindex]
    exact exists_congr fun _ => hplaced.starts_iff hmapped hindex
  · have hlt : other < t.draft.graph.nodeCount := of_decide_eq_true hother
    obtain ⟨index, hindex⟩ := hawaits.owned hpos other hlt hne
    exact ⟨index, hmapped.lt hindex, (hplaced.starts_iff hmapped (hmapped.lt hindex)).mpr hindex⟩
  · have hother := (hplaced.starts_iff hmapped (Nat.lt_of_lt_of_le hlt hnext)).mp hleader
    have hbetween (k : Nat) (hk : leader < k) (hk' : k < next) : t.draft.blockAt? k = none := by
      cases hstart : t.draft.blockAt? k with
      | none => rfl
      | some c =>
        have hlead := (hleads (Nat.lt_of_lt_of_le hk' hnext)).mp ⟨c, hstart⟩
        rw [hnone k hk hk'] at hlead
        contradiction
    have hfilter : (vs.filter fun v => v.home = some other) = (vs.drop leader).take (next - leader) :=
      hplaced.filter_home hmapped hlength hhome hother hlt hnext hbetween fun hend =>
        (hleads hend).mpr (hsome hend)
    change t.draft.graph.stmtsAt other = _
    rw [(hpasses.passedOver hentered hopen).stmts, hstmts, List.nil_append, hfilter]
  · have hfalls : (List.range body.code.size).filter (body.leads p.idioms) = [0] :=
      Body.leads_straight hpos (fun index instr hinstr => (hstraight index instr hinstr).1)
        fun index instr hinstr hlt => by
          obtain ⟨hjump, hend⟩ := hstraight index instr hinstr
          exact ⟨hpasses.fallsThrough (Nat.zero_le _) hinstr hjump (hend hlt), hend hlt⟩
    change t.draft.graph.nodeCount = 2
    rw [hcount, hfalls]
    rfl

/-- A jump back to the second instruction makes it a leader, which the third one is after the jump. -/
theorem flowOf_leaders_jumpBack : ¬ jumpBackExample.code.isEmpty ∧ ∃ flow q,
    flowOf jumpBackExample jumpBackExample.predecessorOracle (.new .standard) = .ok flow q ∧
      Leaders jumpBackExample (Program.new .standard).idioms flow
        (visits jumpBackExample jumpBackExample.predecessorOracle (.new .standard)) := by
  have hempty : ¬ jumpBackExample.code.isEmpty := by decide
  obtain ⟨flow, h⟩ := exists_ok
    (r := flowOf jumpBackExample jumpBackExample.predecessorOracle (.new .standard)) (by decide +kernel)
  exact ⟨hempty, flow, _, h, flowOf_leaders _ _ hempty h⟩

end Session

end GuardedFlow
