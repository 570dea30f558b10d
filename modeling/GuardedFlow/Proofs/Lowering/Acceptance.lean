import GuardedFlow.Proofs.Lowering.Answers

/-!
# Well-formed bodies are lowered

No check refuses a well-formed body, whatever the oracle counts: `Session.flowOf_accepts`. Operations that
neither jump nor return leave their block open. Of jumps and returns it is known that their edges can be
added. So the pass comes from each instruction to the next one, and closing the stream does not fail.
-/

namespace GuardedFlow

namespace Lower

variable {p : Program} {body : Body} {regions : List Region}

/-! ### Operations that stay in their block -/

/-- An accepted call of operands is lowered. -/
theorem answers_prepare {source : Call Value} {dest : Option Expr} {operands : List Value}
    (hcall : source.WellFormed p) (h : Accepted p body regions operands
      (CallSite.of source.kind source.method dest.isSome ++ Value.callSites? source.base ++
        Value.callSitesOf source.args)
      (Call.accesses p ⟨source.kind, source.method, Value.accesses? p body source.base,
        Value.accessesAll p body source.args⟩ dest.isSome))
    (hbase : Value.inner? source.base ⊆ operands) (hargs : Value.innerOf source.args ⊆ operands) :
    Answers p body regions (call (prepare source) dest) :=
  answers_call (fun hkind => operand?_answers source.base (h.ofBase hbase hkind))
    (operands_answer source.args (h.ofArgs hargs))
    (fun hkind => (isSome_operand? source.base).trans (hcall.receiver hkind)) hcall.indirect h.idiom

/-- An accepted heap location is read. -/
theorem answers_readHeap {place : Value} (hplace : place.isHeapLocation = true)
    (h : place.Accepted p body regions) (dest : Var) : Answers p body regions (readHeap place dest) := by
  cases place with
  | field v field =>
    exact answers_readField (operand_answers v h.value)
      (h.regions ⟨.read, .field field⟩ (by simp [Value.accesses])) dest
  | staticField field =>
    exact answers_readStatic (h.regions ⟨.read, .static field⟩ (by simp [Value.accesses])) dest
  | element v w =>
    obtain ⟨element, helement⟩ := Option.isSome_iff_exists.mp h.self
    refine answers_readElement helement (operand_answers v h.value) (operand_answers w h.value) ?_ dest
    exact h.regions ⟨.read, .elements element⟩ (by simp [Value.accesses, helement])
  | _ => cases hplace

/-- An accepted heap location is written. -/
theorem answers_writeHeap {place : Value} (hplace : place.isHeapLocation = true)
    (h : Accepted p body regions place.parts place.callSites (place.storeAccesses p body))
    (value : Expr) : Answers p body regions (writeHeap place value) := by
  cases place with
  | field v field =>
    have hv : v.Accepted p body regions := h.mono (by simp [Value.parts, Value.inner])
      (by simp [Value.callSites]) (by simp [Value.storeAccesses])
    exact answers_writeField (operand_answers v hv)
      (h.regions ⟨.write, .field field⟩ (by simp [Value.storeAccesses])) value
  | staticField field =>
    exact answers_writeStatic (h.regions ⟨.write, .static field⟩ (by simp [Value.storeAccesses])) value
  | element v w =>
    obtain ⟨element, helement⟩ := Option.isSome_iff_exists.mp (h.operands _ List.mem_cons_self)
    have hv : v.Accepted p body regions := h.mono
      (by simp +contextual [List.subset_def, Value.parts, Value.inner]) (by simp [Value.callSites])
      (by simp [Value.storeAccesses])
    have hw : w.Accepted p body regions := h.mono
      (by simp +contextual [List.subset_def, Value.parts, Value.inner]) (by simp [Value.callSites])
      (by simp +contextual [List.subset_def, Value.storeAccesses])
    refine answers_writeElement helement (operand_answers v hv) (operand_answers w hw) ?_ value
    exact h.regions ⟨.write, .elements element⟩ (by simp [Value.storeAccesses, helement])
  | _ => cases hplace

/-- An accepted allocation is initialized. -/
theorem answers_initObject {source : Value}
    (h : Accepted p body regions source.parts source.callSites (source.initAccesses p body)) (dest : Var) :
    Answers p body regions (initObject dest source) := by
  unfold initObject
  cases source with
  | new ty | newMultiArray ty sizes =>
    exact (answers_writeTag (h.regions ⟨.write, p.tagRegion⟩ (by simp [Value.initAccesses])) _ _).bind
      fun _ _ => .pure trivial
  | newArray element size =>
    have hsize : size.Accepted p body regions := h.mono (by simp [Value.parts, Value.inner])
      (by simp [Value.callSites]) (by simp +contextual [List.subset_def, Value.initAccesses])
    have hlength := h.regions ⟨.read, p.lengthRegion element⟩ (by simp [Value.initAccesses])
    exact (answers_writeTag (h.regions ⟨.write, p.tagRegion⟩ (by simp [Value.initAccesses])) _ _).bind
      fun _ _ => (operand_answers size hsize).bind fun _ _ => (Answers.freshTemp _ _).bind fun _ _ =>
        (Answers.arrayClass _).bind fun _ hclass =>
          (answers_readField (.pure trivial) (by rw [hclass]; exact hlength) _).bind fun _ _ => .emitHere _
  | _ => exact .pure trivial

/-- An operand is assigned to a local. -/
theorem answers_assignLocal {source : Value} (h : source.Accepted p body regions)
    (hinit : Accepted p body regions source.parts source.callSites (source.initAccesses p body))
    (dest : Var) : Answers p body regions (assignLocal dest source) := by
  have hother : Answers p body regions (do
      let value ← operand source
      emitHere (.assign (.var dest) value)
      initObject dest source) :=
    (operand_answers source h).bind fun _ _ => (Answers.emitHere _).bind fun _ _ =>
      answers_initObject hinit dest
  unfold assignLocal
  cases source with
  | field | staticField | element => exact answers_readHeap rfl h dest
  | length v =>
    obtain ⟨element, helement⟩ := Option.isSome_iff_exists.mp h.self
    refine answers_readLength helement (operand_answers v h.value) ?_ dest
    exact h.regions ⟨.read, p.lengthRegion element⟩ (by simp [Value.accesses, helement])
  | _ => exact hother

/-- A well-formed assignment is lowered. -/
theorem answers_assign {place source : Value} (hop : (Op.assign place source).WellFormed p body)
    (h : (Op.assign place source).Accepted p body regions) :
    Answers p body regions (assign place source) := by
  have hsource : source.Accepted p body regions := h.mono (by simp [Op.operands]) (by simp [Op.callSites])
    (by simp [Op.accesses])
  obtain ⟨hplace, hsides⟩ := hop.permitted
  rw [assign_eq (by simpa using hsides)]
  have hcall {kind : CallKind} {method : MethodSig} {base : Option Value} {args : List Value}
      (heq : source = .call kind method base args) (dest : Var) :
      Answers p body regions (call (prepare ⟨kind, method, base, args⟩) (some (.var dest))) := by
    subst heq
    exact answers_prepare hsource.self hsource (by simp [Value.parts, Value.inner])
      (by simp [Value.parts, Value.inner])
  rcases place.slot_or_isHeapLocation hplace with ⟨slot, rfl⟩ | hplace
  · have hdest : Answers p body regions (targetVar (.slot slot)) :=
      answers_localVar (h.operands (.slot slot) (by simp [Op.operands, Value.parts]))
    have hinit : Accepted p body regions source.parts source.callSites (source.initAccesses p body) :=
      h.mono (by simp [Op.operands]) (by simp [Op.callSites]) (by simp [Op.accesses, Value.isHeapLocation])
    have hplain : Answers p body regions (assignOperand (.slot slot) source) :=
      hdest.bind fun dest _ => answers_assignLocal hsource hinit dest
    cases source with
    | call kind method base args => exact hdest.bind fun dest _ => hcall rfl dest
    | _ => exact hplain
  · have hstore : Accepted p body regions place.parts place.callSites (place.storeAccesses p body) :=
      h.mono (by simp [Op.operands]) (by simp [Op.callSites]) (by simp [Op.accesses, hplace])
    have hplain : Answers p body regions (assignOperand place source) := by
      rw [assignOperand_eq]
      simp only [hplace, if_true]
      exact (operand_answers source hsource).bind fun _ _ => answers_writeHeap hplace hstore _
    cases source with
    | call kind method base args =>
      dsimp only
      unfold assignCall
      simp only [hplace, if_true]
      exact (Answers.freshTemp _ _).bind fun temp _ => (hcall rfl temp).bind fun _ _ =>
        answers_writeHeap hplace hstore _
    | _ => exact hplain

/-- An accepted lock is entered and left. -/
theorem answers_monitor {lock : Value} (h : lock.Accepted p body regions) (name : String) :
    Answers p body regions (monitor name lock) :=
  (operand_answers lock h).bind fun _ _ => Answers.usesMonitors.bind fun _ _ => .report _ _ _

/-- An operation that neither jumps nor returns leaves its block open. -/
theorem operation_answers (index : Nat) {op : Op Nat} (hop : op.WellFormed p body)
    (h : op.Accepted p body regions) (hjump : op.jumpTargets = []) (hvoid : op ≠ .retVoid)
    (hret : ∀ value, op ≠ .ret value) : Answers p body regions (operation index op) := by
  cases op with
  | assign place source => exact answers_assign hop h
  | identity slot source =>
    have hsource : source.Accepted p body regions :=
      h.mono (by simp [Op.operands]) (by simp [Op.callSites]) (by simp [Op.accesses])
    exact (answers_localVar (h.operands (.slot slot) (by simp [Op.operands]))).bind fun _ _ =>
      (operand_answers source hsource).bind fun _ _ => .emitHere _
  | invoke source =>
    have hcall : Answers p body regions (call (prepare source) none) :=
      answers_prepare hop.permitted h (by simp [Op.operands]) (by simp [Op.operands])
    exact hcall
  | ret value => exact absurd rfl (hret value)
  | retVoid => exact absurd rfl hvoid
  | monitorEnter lock | monitorExit lock => exact answers_monitor h _
  | nop | breakpoint => exact .pure trivial
  | goto | branch => cases hjump
  | tableSwitch | lookupSwitch | subroutineReturn | throw => exact hop.permitted.elim

/-! ### Jumps and returns -/

variable {s : LoweringState} {index : Nat} {block : BlockId}

/-- A target in the code is a target of jumps. -/
theorem checkTarget_answers {target : Nat} (h : target < s.draft.body.code.size) :
    checkTarget target s = .ok () s := by
  change (if s.draft.body.code.size ≤ target then fail (.targetOutside (positionText target))
    else pure () : Lower Unit) s = _
  rw [if_neg (Nat.not_le.mpr h)]
  rfl

/-- A return redirects the state. -/
theorem returnVoid_redirects {t : LoweringState} (h : returnVoid s = .ok () t) : s.Redirects t := by
  obtain ⟨block, u, hblock, h₁⟩ := bind_ok h
  obtain ⟨rfl, -⟩ := currentBlock_ok hblock
  obtain ⟨_, v, hconnect, h₂⟩ := bind_ok h₁
  obtain ⟨rfl, -⟩ := connect_ok hconnect
  cases h₂
  exact .mk _ _ _ _

/-- A return succeeds while a block is open. -/
theorem returnVoid_accords (hs : s.Accords p body regions) (hready : s.Ready)
    (hopen : s.openBlock = some block) :
    ∃ t, returnVoid s = .ok () t ∧ t.Accords p body regions :=
  let ⟨t, hrun⟩ := returnVoid_ready hready hopen
  ⟨t, hrun, hs.redirects (returnVoid_redirects hrun)⟩

/-- An accepted value is returned from a method with a result. -/
theorem returnValue_accords (hs : s.Accords p body regions) (hready : s.Ready)
    (hopen : s.openBlock = some block) {value : Value} (hvalue : value.Accepted p body regions)
    (hresult : body.method.result.isVoid = false) :
    ∃ t, returnValue (operand value) s = .ok () t ∧ t.Accords p body regions := by
  obtain ⟨result, hsome⟩ := Option.isSome_iff_exists.mp (Session.result_startOf p hresult)
  have hstore : Answers p body regions (do
      let value ← operand value
      emitHere (.assign (.var result) value)) := (operand_answers value hvalue).bind fun _ _ => .emitHere _
  obtain ⟨_, out, t, hrun, hst, ht, -⟩ := hstore s hs hready (by simp [hopen])
  obtain ⟨u, hreturn, hu⟩ :=
    returnVoid_accords ht (hst.ready hready) (hst.openBlock.trans hopen)
  refine ⟨u, ?_, hu⟩
  have hsplit : returnValue (operand value) s = ((do
      let value ← operand value
      emitHere (.assign (.var result) value)) >>= fun _ => returnVoid : Lower Unit) s := by
    unfold returnValue
    rw [bind_run, show draft s = .ok s.draft s from rfl]
    simp only [hs.started.result, hsome, bind_assoc]
  rw [hsplit, bind_run, hrun]
  exact hreturn

/-- A jump into the code succeeds while a block is open. -/
theorem goto_accords (hs : s.Accords p body regions) (hpending : s.Pending body index)
    (hopen : s.openBlock = some block) {target : Nat} (htarget : target < body.code.size) :
    ∃ t, goto target s = .ok () t ∧ t.Accords p body regions := by
  cases hrun : goto target s with
  | ok _ t => exact ⟨t, rfl, hs.redirects (goto_redirects hrun)⟩
  | error e t =>
    exfalso
    unfold goto at hrun
    rw [bind_run, checkTarget_answers (hs.lowers ▸ htarget)] at hrun
    exact goto_edge hpending hopen hrun

/-- A conditional jump into the code succeeds while a block is open. -/
theorem branch_accords (hs : s.Accords p body regions) (hpending : s.Pending body index)
    (hopen : s.openBlock = some block) {condition : Value} {target : Nat}
    (hcondition : condition.Accepted p body regions) (htarget : target < body.code.size) :
    ∃ t, branch index condition target s = .ok () t ∧ t.Accords p body regions := by
  obtain ⟨guard, out, u, hguard, hsu, hu, -⟩ :=
    operand_answers condition hcondition s hs hpending.ready (by simp [hopen])
  cases hrun : branch index condition target s with
  | ok _ t =>
    obtain ⟨guard', u', hguard', hredirects⟩ := branch_redirects hrun
    rw [hguard] at hguard'
    cases hguard'
    exact ⟨t, rfl, hu.redirects hredirects⟩
  | error e t =>
    exfalso
    have hstill : u.openBlock = some block := hsu.openBlock.trans hopen
    rw [branch_eq, bind_run, checkTarget_answers (hs.lowers ▸ htarget)] at hrun
    dsimp only at hrun
    rw [bind_run, hguard] at hrun
    dsimp only at hrun
    by_cases hnext : u.draft.body.next? index = some target
    · rw [fork_next hnext] at hrun
      cases hrun
    · rw [fork_open hnext hstill, hu.lowers] at hrun
      exact split_edges (hpending.emits hsu hopen) hstill htarget (hu.lowers ▸ hnext) hrun

/-! ### Passes -/

/-- The lowering of an operation of a well-formed body answers. -/
theorem operation_accords (hs : s.Accords p body regions) (hpending : s.Pending body index)
    (hopen : s.openBlock = some block) {op : Op Nat} (hop : op.WellFormed p body)
    (hregions : ∀ access ∈ op.accesses p body, access.region ∈ regions) :
    ∃ t, operation index op s = .ok () t ∧ t.Accords p body regions := by
  have h : op.Accepted p body regions := ⟨hop.operands, hop.idioms, hregions⟩
  have hplain (hjump : op.jumpTargets = []) (hvoid : op ≠ .retVoid) (hret : ∀ value, op ≠ .ret value) :
      ∃ t, operation index op s = .ok () t ∧ t.Accords p body regions := by
    obtain ⟨_, out, t, hrun, -, ht, -⟩ :=
      operation_answers index hop h hjump hvoid hret s hs hpending.ready (by simp [hopen])
    exact ⟨t, hrun, ht⟩
  cases op with
  | goto target => exact goto_accords hs hpending hopen (hop.targets target (by simp [Op.jumpTargets]))
  | branch condition target =>
    exact branch_accords hs hpending hopen h (hop.targets target (by simp [Op.jumpTargets]))
  | ret value => exact returnValue_accords hs hpending.ready hopen h hop.permitted
  | retVoid => exact returnVoid_accords hs hpending.ready hopen
  | tableSwitch | lookupSwitch => exact hop.permitted.elim
  | _ => exact hplain rfl (by simp) (by simp)

/-- A pass over instructions of a well-formed body answers. -/
theorem instructions_accord (h : body.WellFormed p) (oracle : PredecessorOracle) {instrs : List Instr}
    (hcode : body.code.toList.drop index = instrs) (hpending : s.Pending body index)
    (hs : s.Accords p body (body.regions p)) : ∃ t, instructions oracle instrs index s = .ok () t := by
  induction instrs generalizing index s with
  | nil => exact ⟨s, rfl⟩
  | cons instr rest ih =>
    obtain ⟨hget, hdrop, -⟩ := body.code_of_drop hcode
    obtain ⟨hlt, -⟩ := Array.getElem?_eq_some_iff.mp hget
    have hmem : instr ∈ body.code.toList := Array.mem_toList_iff.mpr (Array.mem_of_getElem? hget)
    obtain ⟨entered, henter⟩ := enter_answers oracle hpending
    obtain ⟨hentered, block, hopen⟩ := hpending.enter hlt henter
    have haccords := hs.redirects (enter_redirects henter)
    have hregions : ∀ access ∈ instr.op.accesses p body, access.region ∈ body.regions p :=
      fun access haccess => List.mem_flatMap.mpr
        ⟨instr, hmem, List.mem_map_of_mem haccess⟩
    obtain ⟨left, hop, hleft⟩ :=
      operation_accords haccords hentered hopen (h.ops instr hmem) hregions
    obtain ⟨t, hrest⟩ := ih hdrop (hentered.operation hopen hop) hleft
    refine ⟨t, ?_⟩
    rw [instructions_cons, bind_run, henter]
    dsimp only
    rw [bind_run, hop]
    exact hrest

end Lower

namespace Session

/-- A well-formed body is lowered, in every program and whatever the oracle counts. -/
theorem flowOf_accepts {body : Body} {p : Program} (h : body.WellFormed p) (oracle : PredecessorOracle) :
    ∃ flow q, flowOf body oracle p = .ok flow q := by
  have hpending := pending_startOf body p
  have hcode : body.code.toList.drop 0 = body.code.toList := rfl
  obtain ⟨t, hrun⟩ := Lower.instructions_accord h oracle hcode hpending
    ⟨.refl _, h.globals.among, h.globals.known⟩
  obtain ⟨u, hclose⟩ := Lower.close_answers (hpending.instructions rfl hrun) fun hempty => by
    have hcode : body.code.toList = [] := by simpa using hempty
    rw [hcode] at hrun
    cases hrun
    rfl
  have hstream : Lower.stream oracle body (startOf body p) = .ok () u := by
    rw [Lower.stream, bind_run, hrun]
    exact hclose
  rw [flowOf_run, hstream]
  exact ⟨_, _, rfl⟩

/-- A method that adds up the entries of an array, keeps the sum in a field and passes it on. -/
def sumExample : Body :=
  let total : FieldSig := ⟨"Counter", "total", .int⟩
  { method := ⟨"Counter", "sum", [.array .int], .int⟩
    isStatic := false
    isSynchronized := false
    locals := #[⟨"self", .named "Counter"⟩, ⟨"values", .array .int⟩, ⟨"i", .int⟩]
    code := #[
      ⟨.identity 0 (.receiver (.named "Counter")), .unknown⟩,
      ⟨.identity 1 (.parameter 0 (.array .int)), .unknown⟩,
      ⟨.branch (.binary .ge (.slot 2) (.length (.slot 1))) 6, .unknown⟩,
      ⟨.assign (.field (.slot 0) total)
        (.binary .add (.call .virtual ⟨"Counter", "get", [], .int⟩ (some (.slot 0)) [])
          (.element (.slot 1) (.slot 2))), .unknown⟩,
      ⟨.assign (.slot 2) (.binary .add (.slot 2) (.const (.int 1))), .unknown⟩,
      ⟨.goto 2, .unknown⟩,
      ⟨.invoke ⟨.dynamic, ⟨"Listener", "update", [.int], .prim .void⟩, none, [.field (.slot 0) total]⟩,
        .unknown⟩,
      ⟨.ret (.field (.slot 0) total), .unknown⟩] }

/-- The sum of two parameters is well-formed, and it is lowered. -/
theorem flowOf_accepts_sum : sumExample.WellFormed (.new .standard) ∧
    ∃ flow q, flowOf sumExample sumExample.predecessorOracle (.new .standard) = .ok flow q := by
  have h : sumExample.WellFormed (.new .standard) := by decide +kernel
  exact ⟨h, flowOf_accepts h _⟩

end Session

end GuardedFlow
