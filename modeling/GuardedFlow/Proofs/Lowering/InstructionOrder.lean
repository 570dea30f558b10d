import GuardedFlow.Proofs.Lowering.OperandOrder
import GuardedFlow.Proofs.Lowering.Tagging

/-!
# Instructions are lowered in order

The statements that the lowering of an instruction appends are orderly, and they make the accesses that
the instruction asks for. The temporaries that they set have numbers that were handed out meanwhile, so
that no other instruction sets them. `Lower.visits_ordered` states this for all instructions that a pass
gets done with, also if it fails later.
-/

namespace GuardedFlow

namespace Lower

variable {p : Program} {body : Body} {first : Nat} {dest : Option Var} {c : Stage} {v : Var}

/-- What is set besides temporaries does not count. -/
theorem Acts.lift {α : Type} {m : Lower α} {accesses : List Access} {P : Stage → α → Prop}
    (h : Acts p body first (some v) c m accesses P) (hv : v.role ≠ .temporary) :
    Acts p body first none c m accesses P := fun hc =>
  (h hc).mono fun _ _ _ _ _ ⟨hout, hreach, ha⟩ => by
    refine ⟨hout, { hreach with fresh := fun w hrole hw => ?_ }, ha⟩
    rcases hreach.fresh w hrole hw with hold | hdest | hnew
    · exact .inl hold
    · cases hdest
      exact absurd hrole hv
    · exact .inr (.inr hnew)

/-! ### Assignments -/

/-- Reading a heap location makes the accesses of the operand that it is. -/
theorem acts_readHeap (hp : p.Sound) (place : Value) (hv : c.Awaits first (some v))
    (hrole : v.role ≠ .temporary) :
    Acts p body first (some v) c (readHeap place v) (place.accesses p body) fun _ _ => True := by
  cases place with
  | field base field =>
    exact (acts_readField (operand_delivers hp base) field hv fun h => absurd h hrole).mono
      fun _ _ _ _ => trivial
  | staticField field =>
    exact (acts_readStatic field hv fun h => absurd h hrole).mono fun _ _ _ _ => trivial
  | element array index =>
    exact (acts_readElement array (operand_delivers hp array) (operand_delivers hp index) hv
      fun _ _ h => absurd h hrole).mono fun _ _ _ _ => trivial
  | _ => exact .fail _ rfl

/-- Writing a heap location makes the accesses of the operands in it, and then the write. -/
theorem acts_writeHeap (hp : p.Sound) (place : Value) {value : Expr} (hvalue : c.Held value) :
    Acts p body first none c (writeHeap place value) (place.storeAccesses p body) fun _ _ => True := by
  cases place with
  | field base field => exact acts_writeField (operand_delivers hp base) field hvalue
  | staticField field => exact acts_writeStatic field hvalue
  | element array index =>
    exact acts_writeElement array (operand_delivers hp array) (operand_delivers hp index) hvalue
  | _ => exact .fail _ rfl

/-- A new object gets its type tag. The length of a new array is read into a temporary, which the
assumption reads. -/
theorem acts_initObject (hp : p.Sound) (hv : c.Held (.var v)) (allocation : Value) :
    Acts p body first none c (initObject v allocation) (allocation.initAccesses p body)
      fun _ _ => True := by
  unfold initObject
  cases allocation with
  | new ty => exact (acts_writeTag hv _).map fun _ _ _ _ => trivial
  | newMultiArray ty sizes => exact (acts_writeTag hv _).map fun _ _ _ _ => trivial
  | newArray element size =>
    refine (acts_writeTag hv _).bind fun c₁ _ hc₁ _ => ?_
    refine (operand_delivers hp size c₁).bind fun c₂ requested hc₂ hrequested => ?_
    refine Acts.temp _ _ fun c₃ length hc₃ hrole hty hawaits => ?_
    refine (Acts.arrayClass element).after fun c₄ arrays hc₄ harrays => ?_
    subst harrays
    rw [← List.append_nil [_]]
    refine Acts.andThen (P := fun c' _ => c'.Settled (some length)) ?_ (hawaits.mono hc₄)
      fun c₅ _ hc₅ hset => ?_
    · exact acts_readFieldOf ((((hv.mono hc₁).mono hc₂).mono hc₃).mono hc₄) _ (hawaits.mono hc₄)
        fun _ => hty.trans (hp.lengths element).symm
    · have hlength : c₅.Held (.var length) :=
        hset.held ((hc₄.weaken.trans hc₅).continues.variables (hawaits.writable length rfl).declared)
          (by simp [hrole])
      exact acts_assume (hlength.binary (((hrequested.mono hc₃).mono hc₄).mono hc₅) _)
  | _ => exact .pure trivial

/-- The result of a call is stored after the call. -/
theorem acts_assignCall (hp : p.Sound) (place : Value) (source : Call Value) :
    Acts p body first none c (assignCall place (prepare source))
      ((Op.assign place (.call source.kind source.method source.base source.args)).accesses p body)
      fun _ _ => True := by
  have hcall {c : Stage} {v : Var} (hv : c.Awaits first (some v)) :
      Acts p body first (some v) c (call (prepare source) (some (.var v)))
        ((Value.call source.kind source.method source.base source.args).accesses p body)
        fun c' _ => c'.Settled (some v) := acts_call (prepare_delivers hp source) hv
  unfold assignCall
  rw [Op.accesses]
  by_cases hplace : place.isHeapLocation
  · simp only [hplace, if_true]
    exact Acts.temp _ _ fun c₁ temp hc₁ hrole _ hawaits => (hcall hawaits).andThen hawaits
      fun c₂ _ hc₂ hset => acts_writeHeap hp place <|
        hset.held (hc₂.continues.variables (hawaits.writable temp rfl).declared) (by simp [hrole])
  · simp only [hplace, Bool.false_eq_true, if_false, Value.initAccesses, List.append_nil]
    cases place with
    | slot slot =>
      exact (acts_localVar slot).after fun c₁ v hc₁ ⟨_, hawaits, hrole⟩ =>
        ((hcall hawaits).lift (by simp [hrole])).mono fun _ _ _ _ => trivial
    | _ => exact .fail_bind _ _ rfl

/-- Assigning to a local makes the accesses of the operand, and then those of its initialization. -/
theorem acts_assignLocal (hp : p.Sound) (hv : c.Awaits first (some v)) (hrole : v.role = .declared)
    (hheld : c.Held (.var v)) (source : Value) :
    Acts p body first none c (assignLocal v source)
      (source.accesses p body ++ source.initAccesses p body) fun _ _ => True := by
  have htemp : v.role ≠ .temporary := by simp [hrole]
  have hinit (source : Value) : Acts p body first none c (do
      let value ← operand source
      emitHere (.assign (.var v) value)
      initObject v source) (source.accesses p body ++ source.initAccesses p body) fun _ _ => True :=
    (operand_delivers hp source c).bind fun c₁ value hc₁ hvalue =>
      ((acts_set (hv.mono hc₁) hvalue).lift htemp).after fun c₂ _ hc₂ _ =>
        acts_initObject hp ((hheld.mono hc₁).mono hc₂) source
  unfold assignLocal
  cases source with
  | field | staticField | element =>
    simp only [Value.initAccesses, List.append_nil]
    exact (acts_readHeap hp _ hv htemp).lift htemp
  | length array =>
    simp only [Value.initAccesses, List.append_nil]
    exact ((acts_readLength hp array (operand_delivers hp array) hv fun h => absurd h htemp).lift htemp).mono
      fun _ _ _ _ => trivial
  | _ => exact hinit _

/-- An operand is assigned to a local or to a heap location. -/
theorem acts_assignOperand (hp : p.Sound) (place source : Value) :
    Acts p body first none c (assignOperand place source) ((Op.assign place source).accesses p body)
      fun _ _ => True := by
  rw [assignOperand_eq, Op.accesses]
  by_cases hplace : place.isHeapLocation
  · simp only [hplace, if_true]
    exact (operand_delivers hp source c).bind fun _ _ _ hvalue => acts_writeHeap hp place hvalue
  · simp only [hplace, Bool.false_eq_true, if_false]
    cases place with
    | slot slot =>
      exact (acts_localVar slot).after fun c₁ v hc₁ ⟨hheld, hawaits, hrole⟩ =>
        acts_assignLocal hp hawaits hrole hheld source
    | _ => exact .fail_bind _ _ rfl

/-- An assignment makes its accesses in order. -/
theorem acts_assign (hp : p.Sound) (place source : Value) :
    Acts p body first none c (assign place source) ((Op.assign place source).accesses p body)
      fun _ _ => True := by
  by_cases hboth : place.isHeapLocation && source.isHeapLocation
  · rw [assign_eq_fail hboth]
    exact .fail _ rfl
  · rw [assign_eq hboth]
    cases source with
    | call kind method base args => exact acts_assignCall hp place ⟨kind, method, base, args⟩
    | _ => exact acts_assignOperand hp place _

/-! ### Operations -/

/-- A monitor makes the accesses of its lock. -/
theorem acts_monitor (hp : p.Sound) (name : String) (lock : Value) :
    Acts p body first none c (monitor name lock) (lock.accesses p body) fun _ _ => True := by
  rw [← List.append_nil (lock.accesses p body)]
  exact (operand_delivers hp lock c).bind fun _ _ _ _ => Acts.usesMonitors.after fun _ _ _ _ =>
    .report _ _ _

/-- The statements for an operation that does not jump are orderly and make its accesses. -/
theorem operation_acts (hp : p.Sound) (index : Nat) (op : Op Nat) (hjump : op.jumpTargets = []) :
    Acts p body first none c (operation index op) (op.accesses p body) fun _ _ => True := by
  cases op with
  | assign place source => exact acts_assign hp place source
  | identity slot source =>
    rw [Op.accesses, ← List.append_nil (source.accesses p body)]
    exact (acts_localVar slot).after fun c₁ v hc₁ ⟨_, hawaits, hrole⟩ =>
      (operand_delivers hp source c₁).bind fun c₂ value hc₂ hvalue =>
        ((acts_set (hawaits.mono hc₂) hvalue).lift (by simp [hrole])).mono fun _ _ _ _ => trivial
  | invoke source =>
    exact (acts_call (prepare_delivers hp source) (Stage.awaits_none first c)).mono fun _ _ _ _ => trivial
  | ret value => exact (acts_returnValue (operand_delivers hp value)).mono fun _ _ _ _ => trivial
  | retVoid => exact Acts.returnVoid.mono fun _ _ _ _ => trivial
  | monitorEnter lock => exact acts_monitor hp _ lock
  | monitorExit lock => exact acts_monitor hp _ lock
  | nop => exact .pure trivial
  | breakpoint => exact .pure trivial
  | subroutineReturn _ => exact .fail _ rfl
  | throw _ => exact .fail _ rfl
  | _ => simp [Op.jumpTargets] at hjump

end Lower

/-! ### Jumps -/

/-- A step that only changes blocks and edges. -/
inductive LoweringState.Redirects (s : LoweringState) : LoweringState → Prop where
  | mk (graph : Graph Block Guard) (starts : Array (Option BlockId)) (current : Option Nat)
      (openBlock : Option BlockId) :
      Redirects s { s with draft := { s.draft with graph, starts, current }, openBlock }

namespace LoweringState.Redirects

variable {s t : LoweringState}

/-- A redirected state continues the one before. -/
theorem continues (h : s.Redirects t) : Continues s t := by
  cases h
  exact .of_graph s _ _ _ _ _

/-- Numbers stay in order when a state is redirected. -/
theorem numbered (h : s.Redirects t) (hs : s.Numbered) : t.Numbered := by
  cases h
  exact hs.congr rfl (Nat.le_refl _) rfl

/-- A block that is asked for changes no variables. -/
theorem of_located {index : Nat} {block : BlockId} {d : Draft} (h : s.draft.Located index block d) :
    s.Redirects { s with draft := d } := by
  cases h with
  | old _ _ => exact .mk s.draft.graph s.draft.starts s.draft.current s.openBlock
  | new label _ => exact .mk _ _ s.draft.current s.openBlock

/-- Redirections follow one another. -/
theorem trans {u : LoweringState} (hst : s.Redirects t) (htu : t.Redirects u) : s.Redirects u := by
  cases hst
  cases htu
  exact .mk _ _ _ _

/-- Edges may be added, and another block may be opened. -/
theorem link (h : s.Redirects t) (graph : Graph Block Guard) (openBlock : Option BlockId) :
    s.Redirects { t with draft := { t.draft with graph }, openBlock } :=
  h.trans (.mk graph t.draft.starts t.draft.current openBlock)

end LoweringState.Redirects

namespace Lower

variable {s t : LoweringState}

open LoweringState (Redirects)

/-- Entering an instruction redirects the state. -/
theorem enter_redirects {oracle : PredecessorOracle} {index : Nat} (h : enter oracle index s = .ok () t) :
    s.Redirects t := by
  have hmove : s.Redirects { s with draft := s.draft.moveTo index } := .mk _ _ _ _
  rcases enter_ok h with ⟨-, block, d, hlocated, rfl⟩ | ⟨block, -, rfl, -⟩ |
    ⟨block, other, d, -, hlocated, -, -, rfl⟩
  · exact (hmove.trans (.of_located hlocated)).link _ _
  · exact hmove
  · exact (hmove.trans (.of_located hlocated)).link _ _

/-- A jump redirects the state. -/
theorem goto_redirects {target : Nat} (h : goto target s = .ok () t) : s.Redirects t := by
  obtain ⟨-, block, other, d, -, hlocated, rfl⟩ := goto_ok h
  exact (Redirects.of_located hlocated).link _ _

/-- After its condition, a conditional jump only changes blocks and edges. -/
theorem branch_redirects {index target : Nat} {condition : Value}
    (h : branch index condition target s = .ok () t) :
    ∃ guard u, operand condition s = .ok guard u ∧ u.Redirects t := by
  obtain ⟨-, guard, u, hguard, hrest⟩ := branch_ok h
  refine ⟨guard, u, hguard, ?_⟩
  rcases hrest with ⟨-, rfl⟩ | ⟨-, block, other, d, -, hlocated, ⟨-, rfl⟩ | ⟨next, rest, e, -, hlocated', rfl⟩⟩
  · exact .mk _ _ _ _
  · exact (Redirects.of_located hlocated).link _ _
  · have hfirst := (Redirects.of_located hlocated).link
      (d.graph.link block other (some guard)) u.openBlock
    exact (hfirst.trans (.of_located hlocated')).link _ _

/-- Closing the last block redirects the state. -/
theorem close_redirects {body : Body} (h : close body s = .ok () t) : s.Redirects t := by
  rcases close_ok h with ⟨-, rfl⟩ | ⟨-, -, rfl⟩ | ⟨-, block, -, rfl⟩ <;> exact .mk _ _ _ _

end Lower

/-! ### Instructions of a pass -/

/-- The lowering of an operation went from `s` to `t` in order. -/
structure LoweringState.Advances (p : Program) (body : Body) (op : Op Nat) (s t : LoweringState) : Prop where
  orderly : Orderly s.program.supply.next t [] (op.accesses p body) (s.appended t)
  numbered : t.Numbered
  fresh : ∀ v, v.role = .temporary → Defined (s.appended t) v →
    s.program.supply.next ≤ v.id ∧ v.id < t.program.supply.next

namespace Lower

variable {p : Program} {body : Body} {s t : LoweringState}

/-- What a step does at the start of an instruction can be read off the states around it. -/
theorem Acts.from_start {α : Type} {m : Lower α} {accesses : List Access} {P : Stage → α → Prop} {a : α}
    (h : Acts p body s.program.supply.next none ⟨s, []⟩ m accesses P) (hs : s.Within p body)
    (hn : s.Numbered) (hrun : m s = .ok a t) :
    Orderly s.program.supply.next t [] accesses (s.appended t) ∧
      Stage.Reaches none ⟨s, []⟩ ⟨t, s.appended t⟩ ∧ P ⟨t, s.appended t⟩ a := by
  obtain ⟨out, fin, hemits, hout, hreach, ha⟩ :=
    (h ⟨hs, hn, Nat.le_refl _, fun _ _ ⟨_, hmem, _⟩ => nomatch hmem⟩).ok a t hrun
  rw [hemits.appended]
  exact ⟨hout, hreach, ha⟩

/-- What is orderly at the start of an instruction advances its lowering. -/
theorem advances_of_orderly {op : Op Nat}
    (hout : Orderly s.program.supply.next t [] (op.accesses p body) (s.appended t))
    (hreach : Stage.Reaches none ⟨s, []⟩ ⟨t, s.appended t⟩) : s.Advances p body op t :=
  ⟨hout, hreach.numbered, fun v hrole hv => by
    rcases hreach.fresh v hrole hv with ⟨_, hmem, -⟩ | hnone | hnew
    · exact nomatch hmem
    · cases hnone
    · exact hnew⟩

/-- Every operation that succeeds is lowered in order. -/
theorem operation_advances (hp : p.Sound) {index : Nat} {op : Op Nat} {block : BlockId}
    (hstanding : s.Standing body) (hopen : s.openBlock = some block) (hs : s.Within p body) (hn : s.Numbered)
    (hrun : operation index op s = .ok () t) : s.Advances p body op t := by
  rcases jump_appended hstanding hopen hrun with hjump | ⟨target, rfl, hsegment⟩ |
    ⟨condition, target, guard, u, rfl, hguard, hsegment, hprogram⟩
  · obtain ⟨hout, hreach, -⟩ := (operation_acts hp index op hjump).from_start hs hn hrun
    exact advances_of_orderly hout hreach
  · refine ⟨?_, (goto_redirects hrun).numbered hn, ?_⟩ <;> rw [hsegment]
    · exact .nil
    · rintro v - ⟨_, hmem, -⟩
      cases hmem
  · obtain ⟨guard', u', hguard', hredirects⟩ := branch_redirects hrun
    obtain ⟨rfl, rfl⟩ : guard = guard' ∧ u = u' := by simpa [hguard] using hguard'
    obtain ⟨hout, hreach, -⟩ := (operand_delivers hp condition _).from_start hs hn hguard
    obtain ⟨horderly, hnumbered, hfresh⟩ : s.Advances p body (.branch condition target) u :=
      advances_of_orderly hout hreach
    refine ⟨hsegment ▸ horderly.mono hredirects.continues, hredirects.numbered hnumbered, ?_⟩
    rw [hsegment, hprogram]
    exact hfresh

end Lower

/-- The instruction of a visit was lowered in order. -/
structure Visit.Ordered (p : Program) (body : Body) (s t : LoweringState) (v : Visit) : Prop where
  during : ∃ index, v.During body s t index
  numbered : v.entered.Numbered
  advances : v.entered.Advances p body v.instr.op v.left

namespace Lower

variable {p : Program} {body : Body} {s : LoweringState}

/-- A step that keeps the draft in order continues it, whether it answers or fails. -/
theorem Keeps.after {α : Type} {m : Lower α} (h : Keeps m) (s : LoweringState) :
    Continues s (stateAfter (m s)) := by
  have hs := h s
  cases hrun : m s <;> rw [hrun] at hs
  · exact hs
  · exact hs.1

/-- All instructions that a pass gets done with are lowered in order, one after another, also if the pass
fails later. -/
theorem visits_ordered (hp : p.Sound) (oracle : PredecessorOracle) {instrs : List Instr} {index : Nat}
    (hcode : body.code.toList.drop index = instrs) (hstanding : s.Standing body) (hs : s.Within p body)
    (hn : s.Numbered) :
    (∀ v ∈ visits oracle instrs index s,
      v.Ordered p body s (stateAfter (instructions oracle instrs index s))) ∧
    (visits oracle instrs index s).Pairwise
      (fun v w => v.left.program.supply.next ≤ w.entered.program.supply.next) ∧
    ∀ t, instructions oracle instrs index s = .ok () t → t.Numbered := by
  -- on the instructions that are left; all three parts hold of the rest from the state that is left
  induction instrs generalizing index s with
  | nil =>
    refine ⟨by simp [visits], .nil, fun t h => ?_⟩
    cases h
    exact hn
  | cons instr rest ih =>
    obtain ⟨hinstr, hrest, hsize⟩ := body.code_of_drop hcode
    rw [instructions_cons, bind_run, visits]
    cases henter : enter oracle index s with
    | error e t => exact ⟨by simp, .nil, by simp⟩
    | ok _ entered =>
      obtain ⟨hentered, -, block, -, hopen, -⟩ := enter_arrives hstanding (by omega) henter
      have hredirects := enter_redirects henter
      have hwithin := hs.continues hredirects.continues
      have hnumbered := hredirects.numbered hn
      dsimp only
      rw [bind_run]
      cases hop : operation index instr.op entered with
      | error e t => exact ⟨by simp, .nil, by simp⟩
      | ok _ left =>
        have hadvances := operation_advances hp hentered hopen hwithin hnumbered hop
        have hleft := (operation_departs hentered hopen hop).1
        have hkeeps := (Keeps.operation index instr.op).ok hop
        obtain ⟨hvisits, hpairwise, hfinal⟩ :=
          ih hrest hleft (hwithin.continues hkeeps) hadvances.numbered
        dsimp only
        refine ⟨fun v hv => ?_, List.pairwise_cons.mpr ⟨fun w hw => ?_, hpairwise⟩, hfinal⟩
        · rcases List.mem_cons.mp hv with rfl | hv
          · exact ⟨⟨index, hop, ⟨block, hopen⟩, hentered, hredirects.continues,
              (Keeps.instructions oracle rest (index + 1)).after left⟩, hnumbered, hadvances⟩
          · obtain ⟨⟨other, hduring⟩, hvnumbered, hvadvances⟩ := hvisits v hv
            exact ⟨⟨other, { hduring with
              before := (hredirects.continues.trans hkeeps).trans hduring.before }⟩, hvnumbered, hvadvances⟩
        · obtain ⟨⟨other, hduring⟩, -, -⟩ := hvisits w hw
          exact hduring.before.program.supply

end Lower

end GuardedFlow
