import Mathlib.Data.List.Perm.Basic
import GuardedFlow.Proofs.Lowering.InstructionEffects
import GuardedFlow.Proofs.Lowering.Notes

/-!
# The findings of a lowering

What a lowering does not model, it reports: `Session.flowOf_told` states that the reports and the methods
that were asked for are those that the notes of the instructions tell, also up to a failure.
`Session.flowOf_discloses` compares the reports with the graph. Every opaque call in it has its warning, and
the other findings are one for each monitor instruction and one for each call that exits the process.
-/

namespace GuardedFlow

/-! ### Notes of a body -/

/-- What the lowering of an instruction tells the program, with the location that is told. -/
def Instr.notes (idioms : List Idiom) (instr : Instr) : List (Location × Note) :=
  (instr.op.notes idioms).map (instr.location, ·)

/-- What the lowering of a body tells the program, in order. -/
def Body.notes (idioms : List Idiom) (body : Body) : List (Location × Note) :=
  body.code.toList.flatMap (·.notes idioms)

/-- The indirect calls that an instruction asks for, with their locations. -/
def Instr.indirectCalls (idioms : List Idiom) (instr : Instr) : List (Location × String) :=
  ((instr.op.notes idioms).filterMap Note.indirect?).map (instr.location, ·)

/-! ### Operations -/

namespace Lower

variable {s t : LoweringState} {index : Nat} {op : Op Nat} {e : Error}

/-- A step that fails without telling anything has told a first part of any notes. -/
theorem Quiet.told_part {m : Lower Unit} (h : Quiet m) (notes : List Note) (hrun : m s = .error e t) :
    ∃ told, told <+: notes ∧ s.Told told t := ⟨[], List.nil_prefix, h.told_error hrun⟩

/-- A conditional jump that fails has told a first part of the notes of its condition: the rest of it tells
nothing. -/
theorem branch_told {condition : Value} {target : Nat} (hrun : branch index condition target s = .error e t) :
    ∃ told, told <+: condition.notes s.program.idioms ∧ s.Told told t := by
  rw [branch_eq] at hrun
  rcases bind_error hrun with hrun | ⟨_, u, hcheck, hrest⟩
  · exact (Quiet.checkTarget target).told_part _ hrun
  · obtain ⟨rfl, -⟩ := checkTarget_ok hcheck
    rw [← Value.notes_events]
    rcases bind_error hrest with hrun | ⟨guard, w, hguard, hrest⟩
    · obtain ⟨done, hpart, htold, -⟩ := (operand_traces condition).fails _ e t (.refl _) hrun
      exact ⟨_, hpart.filterMap _, htold⟩
    · obtain ⟨out, fin, hemits, -, hwent, -⟩ :=
        ((operand_traces condition).yields _ (.refl _)).ok guard w hguard
      have hall := hwent.told.trans hemits ((Quiet.fork index target guard).told_error hrest)
      rw [List.append_nil] at hall
      exact ⟨_, List.prefix_rfl, hall⟩

/-- An operation that fails has told a first part of its notes. -/
theorem operation_told (hrun : operation index op s = .error e t) :
    ∃ told, told <+: op.notes s.program.idioms ∧ s.Told told t := by
  have htraces (h : op.jumpTargets = []) : ∃ told, told <+: op.notes s.program.idioms ∧ s.Told told t := by
    obtain ⟨done, hpart, htold, -⟩ := (operation_traces index op h).fails s e t (.refl s) hrun
    rw [← Op.notes_events]
    exact ⟨_, hpart.filterMap _, htold⟩
  cases op with
  | goto target => exact (Quiet.goto target).told_part _ hrun
  | tableSwitch | lookupSwitch => exact (Quiet.fail _).told_part _ hrun
  | branch condition target => exact branch_told hrun
  | _ => exact htraces rfl

end Lower

/-! ### Passes -/

/-- The segment of a visit has the indirect calls of its instruction as opaque calls. There are none where
they are refused. -/
structure Visit.Discloses (idioms : List Idiom) (config : Config) (v : Visit) : Prop where
  calls : (v.segment.filterMap Stmt.indirect?).Perm (v.instr.indirectCalls idioms)
  strict : config.strictUnsupported = true → v.instr.indirectCalls idioms = []

/-- A visit whose instruction did its events discloses the indirect calls. -/
theorem Lower.Went.discloses {v : Visit} {idioms : List Idiom}
    (h : Lower.Went v.entered v.entered (v.instr.op.events idioms) v.segment v.left)
    (hlocation : v.entered.draft.location = v.instr.location) :
    v.Discloses idioms v.entered.program.config where
  calls := by
    have hwarned := (v.instr.op.warned idioms).map (v.instr.location, ·)
    rwa [h.shows.indirect, hlocation, Instr.indirectCalls, ← Op.notes_events]
  strict hstrict := by
    rw [Instr.indirectCalls, ← Op.notes_events, h.strict hstrict, List.map_nil]

namespace Lower

variable {body : Body} {s : LoweringState} {index : Nat}

/-- A pass tells the notes of the instructions in order, and a first part of them if it fails. -/
theorem instructions_tell (oracle : PredecessorOracle) {instrs : List Instr}
    (hcode : body.code.toList.drop index = instrs) (hs : s.Standing body) {idioms : List Idiom}
    (hidioms : s.program.idioms = idioms) :
    (∀ t, instructions oracle instrs index s = .ok () t →
      s.program.Told body.method (instrs.flatMap (·.notes idioms)) t.program) ∧
    (∀ e t, instructions oracle instrs index s = .error e t →
      ∃ told, told <+: instrs.flatMap (·.notes idioms) ∧ s.program.Told body.method told t.program) ∧
    ∀ v ∈ visits oracle instrs index s, v.Discloses idioms s.program.config := by
  -- on the instructions that are left; all three parts hold of the rest from the state that is left
  induction instrs generalizing index s with
  | nil =>
    refine ⟨fun t hrun => ?_, fun e t hrun => (nomatch hrun), by simp [visits]⟩
    cases hrun
    exact .of_eq rfl rfl
  | cons instr rest ih =>
    obtain ⟨hinstr, hrest, hsize⟩ := body.code_of_drop hcode
    rw [instructions_cons, bind_run, visits]
    have hquiet := Quiet.enter oracle index s
    cases henter : enter oracle index s with
    | error e t =>
      rw [henter] at hquiet
      refine ⟨by simp, fun e' t' hrun => ?_, by simp⟩
      cases hrun
      exact ⟨[], List.nil_prefix, .of_eq hquiet.log hquiet.methods⟩
    | ok _ entered =>
      obtain ⟨hentered, hprogram, block, -, hopen, -⟩ := enter_arrives hs (by omega) henter
      have hbody : entered.draft.body = body := hentered.mapped.lowers
      have hlocation : entered.draft.location = instr.location := by
        simp [Draft.location, enter_current henter, hbody, hinstr]
      rw [← hprogram] at hidioms ⊢
      have htold {notes : List Note} {t : LoweringState} (h : entered.Told notes t) :
          entered.program.Told body.method (notes.map (instr.location, ·)) t.program := by
        rwa [LoweringState.Told, hlocation, hbody] at h
      dsimp only
      rw [bind_run]
      cases hop : operation index instr.op entered with
      | error e t =>
        refine ⟨by simp, fun e' t' hrun => ?_, by simp⟩
        cases hrun
        obtain ⟨told, hpart, ht⟩ := operation_told hop
        rw [hidioms] at hpart
        exact ⟨told.map (instr.location, ·), (hpart.map _).trans (List.prefix_append _ _), htold ht⟩
      | ok _ left =>
        have hwent := operation_went hentered hopen hop
        rw [hidioms] at hwent
        have hleft := (operation_departs hentered hopen hop).1
        have hgrows := ((Keeps.operation index instr.op).ok hop).program
        obtain ⟨hall, hfails, hvisits⟩ := ih hrest hleft (hgrows.idioms.trans hidioms)
        have hfirst := htold (Op.notes_events idioms instr.op ▸ hwent.told)
        dsimp only
        refine ⟨fun t hrun => hfirst.trans (hall t hrun), fun e t hrun => ?_, fun v hv => ?_⟩
        · obtain ⟨told, hpart, ht⟩ := hfails e t hrun
          exact ⟨_, (List.prefix_append_right_inj _).mpr hpart, hfirst.trans ht⟩
        · rcases List.mem_cons.mp hv with rfl | hv
          · exact Went.discloses (v := ⟨instr, entered, left⟩) hwent hlocation
          · rw [← hgrows.config]
            exact hvisits v hv

end Lower

namespace Session

variable {body : Body} {oracle : PredecessorOracle} {p q : Program}

/-- A lowering that succeeds tells the notes of the body. -/
theorem flowOf_told {flow : Flow} (h : flowOf body oracle p = .ok flow q) :
    p.Told body.method (body.notes p.idioms) q := by
  obtain ⟨t, hstream, -, rfl⟩ := flowOf_ok h
  obtain ⟨_, u, hrun, hclose⟩ := Lower.bind_ok hstream
  obtain ⟨hall, -, -⟩ := Lower.instructions_tell oracle (List.drop_zero (l := body.code.toList))
    (standing_startOf body p) rfl
  have hquiet := Lower.Quiet.close body u
  rw [hclose] at hquiet
  have hended := (hall u hrun).trans (.of_eq hquiet.log hquiet.methods)
  rw [List.append_nil] at hended
  exact ⟨hended.log, hended.methods⟩

/-- A lowering that fails has told a first part of the notes of the body. -/
theorem flowOf_told_error {e : Error} (h : flowOf body oracle p = .error e q) :
    ∃ told, told <+: body.notes p.idioms ∧ p.Told body.method told q := by
  obtain ⟨t, hrun, rfl⟩ := flowOf_error h
  obtain ⟨-, hfails, -⟩ := Lower.instructions_tell oracle (List.drop_zero (l := body.code.toList))
    (standing_startOf body p) rfl
  obtain ⟨told, hpart, hlog, hmethods⟩ := hfails e t hrun
  exact ⟨told, hpart, hlog, hmethods⟩

/-- Every visit of a lowering discloses the indirect calls of its instruction. -/
theorem visits_disclose (body : Body) (oracle : PredecessorOracle) (p : Program) :
    ∀ v ∈ visits body oracle p, v.Discloses p.idioms p.config := by
  obtain ⟨-, -, hvisits⟩ := Lower.instructions_tell oracle (List.drop_zero (l := body.code.toList))
    (standing_startOf body p) rfl
  exact hvisits

end Session

/-! ### Findings of a body -/

/-- The calls that exit the process in what lowering evaluates of an operation. -/
def Op.exits (idioms : List Idiom) (op : Op Nat) : List MethodSig :=
  (op.notes idioms).filterMap Note.halted?

namespace Body

/-- What the lowering of a body reports, in order. -/
def findings (idioms : List Idiom) (body : Body) : List Diagnostic :=
  (body.notes idioms).filterMap fun note => note.2.finding? body.method note.1

/-- A finding for each instruction that enters or leaves a monitor. -/
def monitorFindings (body : Body) : List Diagnostic :=
  body.code.toList.filterMap fun instr =>
    instr.op.monitor?.map fun (name, lock) => .monitor body.method instr.location name lock

/-- A finding for each call that exits the process. -/
def exitFindings (idioms : List Idiom) (body : Body) : List Diagnostic :=
  body.code.toList.flatMap fun instr => (instr.op.exits idioms).map (.exit body.method instr.location)

end Body

/-- A warning for each opaque call. -/
def Flow.warnings (method : MethodSig) (flow : Flow) : List Diagnostic :=
  flow.statements.filterMap fun (_, stmt) =>
    stmt.indirect?.map fun (location, signature) => .indirectCall method location signature

/-- A finding is about an indirect call, a monitor or an exit of the process. -/
theorem Note.findings_perm (method : MethodSig) (location : Location) (notes : List Note) :
    (notes.filterMap (finding? method location)).Perm
      (((notes.filterMap indirect?).map (Diagnostic.indirectCall method location) ++
        (notes.filterMap monitor?).map fun (name, lock) => .monitor method location name lock) ++
        (notes.filterMap halted?).map (Diagnostic.exit method location)) := by
  induction notes with
  | nil => exact .nil
  | cons note rest ih =>
    cases note with
    | resolved callee => exact ih
    | indirect signature => exact ih.cons _
    | monitor name lock =>
      refine (ih.cons _).trans ?_
      simp only [List.filterMap_cons, indirect?, monitor?, halted?, List.map_cons]
      exact (List.perm_middle.symm).append_right _
    | halted callee =>
      refine (ih.cons _).trans ?_
      simp only [List.filterMap_cons, indirect?, monitor?, halted?, List.map_cons]
      exact List.perm_middle.symm

/-- An operation has a note of a monitor if it enters or leaves it. -/
theorem Op.filterMap_monitor? (idioms : List Idiom) (op : Op Nat) :
    (op.notes idioms).filterMap Note.monitor? = op.monitor?.toList := by
  obtain ⟨notes, hnotes, hconcerns⟩ := op.notes_eq idioms
  have hnone : notes.filterMap Note.monitor? = [] := List.filterMap_eq_nil_iff.mpr fun note hnote => by
    have hnote := hconcerns note hnote
    cases note with
    | monitor => cases hnote
    | _ => rfl
  rw [hnotes, List.filterMap_append, hnone, List.nil_append]
  cases op.monitor? <;> rfl

/-- The findings of a body are those of its indirect calls, its monitors and its exits. -/
theorem Body.findings_perm (idioms : List Idiom) (body : Body) : (body.findings idioms).Perm
    ((body.code.toList.flatMap fun instr => (instr.indirectCalls idioms).map fun (location, signature) =>
      Diagnostic.indirectCall body.method location signature) ++ body.monitorFindings ++
      body.exitFindings idioms) := by
  have hinstr (instr : Instr) : ((instr.notes idioms).filterMap fun note =>
        note.2.finding? body.method note.1).Perm
      (((instr.indirectCalls idioms).map fun (location, signature) =>
          Diagnostic.indirectCall body.method location signature) ++
        (instr.op.monitor?.map fun (name, lock) => .monitor body.method instr.location name lock).toList ++
        (instr.op.exits idioms).map (.exit body.method instr.location)) := by
    have hnotes := Note.findings_perm body.method instr.location (instr.op.notes idioms)
    rw [Op.filterMap_monitor?] at hnotes
    rw [Instr.notes, Instr.indirectCalls, List.filterMap_map, List.map_map]
    cases hmonitor : instr.op.monitor? <;> simpa [hmonitor, Function.comp_def, Op.exits] using hnotes
  rw [findings, notes, monitorFindings, exitFindings, List.filterMap_flatMap,
    List.filterMap_eq_flatMap_toList]
  refine (List.Perm.flatMap_left _ fun instr _ => hinstr instr).trans ?_
  exact ((List.flatMap_append_perm _ _ _).symm.trans ((List.flatMap_append_perm _ _ _).symm.append_right _))

/-! ### Statements of a graph -/

/-- Only one of different keys is that of an entry. -/
theorem flatMap_ite_eq {β κ : Type} [DecidableEq κ] {key : κ} {keys : List κ} (hkeys : keys.Nodup)
    (hkey : key ∈ keys) (l : List β) : (keys.flatMap fun k => if key = k then l else []) = l := by
  induction keys with
  | nil => cases hkey
  | cons k rest ih =>
    obtain ⟨hk, hrest⟩ := List.nodup_cons.mp hkeys
    rw [List.flatMap_cons]
    by_cases heq : key = k
    · subst heq
      have hnone : (rest.flatMap fun k => if key = k then l else []) = [] :=
        List.flatMap_eq_nil_iff.mpr fun other hother => if_neg (ne_of_mem_of_not_mem hother hk).symm
      rw [if_pos rfl, hnone, List.append_nil]
    · rw [if_neg heq, List.nil_append]
      exact ih hrest ((List.mem_cons.mp hkey).resolve_left heq)

/-- What is sorted by keys is still there, in another order. -/
theorem flatMap_filter_perm {α β κ : Type} [DecidableEq κ] {key : α → Option κ} {f : α → List β}
    {keys : List κ} (hkeys : keys.Nodup) {l : List α} (h : ∀ a ∈ l, ∃ k ∈ keys, key a = some k) :
    (keys.flatMap fun k => (l.filter (key · = some k)).flatMap f).Perm (l.flatMap f) := by
  induction l with
  | nil => simp
  | cons a rest ih =>
    obtain ⟨own, hown, ha⟩ := h a List.mem_cons_self
    have hrest := ih fun b hb => h b (List.mem_cons_of_mem _ hb)
    have hsplit : (fun k => ((a :: rest).filter (key · = some k)).flatMap f) =
        fun k => (if own = k then f a else []) ++ (rest.filter (key · = some k)).flatMap f := by
      funext k
      by_cases hk : own = k <;> simp [ha, hk]
    rw [hsplit, List.flatMap_cons]
    refine (List.flatMap_append_perm _ _ _).symm.trans ?_
    rw [flatMap_ite_eq hkeys hown]
    exact hrest.append_left _

namespace Flow

/-- The statements of a graph, block by block. -/
theorem map_statements (flow : Flow) :
    flow.statements.map Prod.snd = (List.range flow.graph.nodeCount).flatMap flow.graph.stmtsAt := by
  have hnumbers : List.range flow.graph.nodeCount = flow.graph.nodes.toList.zipIdx.map Prod.snd := by
    rw [List.zipIdx_map_snd, List.range_eq_range']
    rfl
  rw [hnumbers, statements, Graph.nodeList, List.flatMap_map, List.map_flatMap, List.flatMap_map]
  refine List.flatMap_congr fun entry hentry => ?_
  rw [List.mem_zipIdx_iff_getElem?, Array.getElem?_toList] at hentry
  simp [Graph.stmtsAt, Graph.node?, hentry, Function.comp_def]

end Flow

namespace Session

variable {body : Body} {oracle : PredecessorOracle} {p q : Program} {flow : Flow}

/-- The statements of a graph are those of the visits. -/
theorem statements_perm (h : flowOf body oracle p = .ok flow q) :
    (flow.statements.map Prod.snd).Perm ((visits body oracle p).flatMap Visit.segment) := by
  rw [flow.map_statements]
  by_cases hempty : body.code.isEmpty
  · obtain ⟨hvisits, hstmts, -⟩ := flowOf_empty hempty h
    simp [hvisits, hstmts]
  · obtain ⟨entered, t, block, hpasses, rfl, -, hentered, hopen, -, hstmts, -⟩ := flowOf_passes hempty h
    have hpassed := hpasses.passedOver hentered hopen
    have hblocks : (Draft.finish t.draft).graph.stmtsAt = fun block =>
        ((visits body oracle p).filter (·.home = some block)).flatMap Visit.segment := by
      funext block
      rw [← List.nil_append (List.flatMap _ _), ← hstmts block]
      exact hpassed.stmts block
    rw [hblocks]
    refine flatMap_filter_perm List.nodup_range fun v hv => ?_
    obtain ⟨block, hhome, hlt, -⟩ := hpassed.homes v hv
    exact ⟨block, List.mem_range.mpr hlt, hhome⟩

/-- The opaque calls of a graph are the indirect calls of the body. -/
theorem calls_perm (h : flowOf body oracle p = .ok flow q) :
    (flow.statements.filterMap fun entry => entry.2.indirect?).Perm
      (body.code.toList.flatMap (·.indirectCalls p.idioms)) := by
  have hstatements := (statements_perm h).filterMap Stmt.indirect?
  rw [List.filterMap_map, List.filterMap_flatMap] at hstatements
  rw [← flowOf_instrs h, List.flatMap_map]
  exact hstatements.trans (List.Perm.flatMap_left _ fun v hv => (visits_disclose body oracle p v hv).calls)

end Session

/-- What the log and the graph tell of what is not modelled. -/
structure Flow.Discloses (flow : Flow) (body : Body) (p q : Program) : Prop where
  /-- The findings of the body are added to the log, and nothing else. -/
  log : q.log.toList = p.log.toList ++ body.findings p.idioms
  /-- Every opaque call has its warning; every instruction that enters or leaves a monitor and every call
  that exits the process has its finding; there are no other ones. -/
  findings : (body.findings p.idioms).Perm
    (flow.warnings body.method ++ body.monitorFindings ++ body.exitFindings p.idioms)
  /-- The opaque calls are those that the instructions ask for, located there. -/
  calls : (flow.statements.filterMap fun entry => entry.2.indirect?).Perm
    (body.code.toList.flatMap (·.indirectCalls p.idioms))
  /-- Where indirect calls are refused, none has become opaque. -/
  strict : p.config.strictUnsupported = true → ∀ entry ∈ flow.statements, entry.2.indirect? = none

namespace Session

variable {body : Body} {oracle : PredecessorOracle} {p q : Program} {flow : Flow}

/-- A lowering that succeeds discloses what it does not model. -/
theorem flowOf_discloses (h : flowOf body oracle p = .ok flow q) : flow.Discloses body p q where
  log := (flowOf_told h).log
  findings := by
    refine (body.findings_perm p.idioms).trans (List.Perm.append_right _ (List.Perm.append_right _ ?_))
    have hcalls := (calls_perm h).map fun (location, signature) =>
      Diagnostic.indirectCall body.method location signature
    rw [List.map_flatMap, List.map_filterMap] at hcalls
    exact hcalls.symm
  calls := calls_perm h
  strict hstrict := by
    have hnone : body.code.toList.flatMap (·.indirectCalls p.idioms) = [] := by
      rw [← flowOf_instrs h, List.flatMap_map, List.flatMap_eq_nil_iff]
      exact fun v hv => (visits_disclose body oracle p v hv).strict hstrict
    have hcalls := calls_perm h
    rw [hnone] at hcalls
    exact List.filterMap_eq_nil_iff.mp hcalls.eq_nil

/-- Two nested indirect calls in the arguments of a call, under a monitor, and then an exit. -/
def disclosureExample : Body where
  method := ⟨"Findings", "run", [], .prim .void⟩
  isStatic := true
  isSynchronized := false
  locals := #[⟨"x", .int⟩]
  code := #[⟨.monitorEnter (.slot 0), .unknown⟩,
    ⟨.assign (.slot 0) (.call .dynamic ⟨"Hooks", "outer", [.int], .int⟩ none
      [.call .dynamic ⟨"Hooks", "inner", [], .int⟩ none []]), .unknown⟩,
    ⟨.monitorExit (.slot 0), .unknown⟩,
    ⟨.invoke ⟨.static, ⟨"java.lang.System", "exit", [.int], .prim .void⟩, none, [.slot 0]⟩, .unknown⟩]

/-- The outer call is reported first and comes second in the graph. -/
theorem flowOf_discloses_nested : ∃ flow q,
    flowOf disclosureExample disclosureExample.predecessorOracle (.new .standard) = .ok flow q ∧
      flow.Discloses disclosureExample (.new .standard) q ∧
      (disclosureExample.findings (Program.new .standard).idioms).length = 5 := by
  obtain ⟨flow, h⟩ := exists_ok
    (r := flowOf disclosureExample disclosureExample.predecessorOracle (.new .standard)) (by decide +kernel)
  exact ⟨flow, _, h, flowOf_discloses h, by decide +kernel⟩

end Session

end GuardedFlow
