import GuardedFlow.Proofs.Lowering.Tagging

/-!
# Instructions have the effects that they ask for

Every effect that an instruction asks for becomes one statement of its segment, in the order of
evaluation, unless it stands in an operand that lowering drops. `Op.effects_events` states this of the
events of an instruction, and `Session.flowOf_effects` of the segments of every lowering that succeeds: a
segment performs all effects only if none is dropped.
-/

namespace GuardedFlow

open Occurrence

/-- The effects that storing in an operand asks for. -/
def Value.stores (idioms : List Idiom) : Value → List Occurrence
  | field v f => v.occurrences idioms ++ [kept (.write (.field f))]
  | staticField f => [kept (.write (.staticField f))]
  | element v w => v.occurrences idioms ++ (w.occurrences idioms ++ [kept (.write (.element v))])
  | v => v.occurrences idioms

/-- The effects that an operation asks for. The size of an array that is assigned to a local as a whole
is the only size that is evaluated. -/
def Op.occurrences (idioms : List Idiom) : Op Nat → List Occurrence
  | assign (.slot _) (.newArray _ size) => size.occurrences idioms
  | assign place source => source.occurrences idioms ++ place.stores idioms
  | identity _ v | branch v _ | ret v | monitorEnter v | monitorExit v => v.occurrences idioms
  | tableSwitch v .. | lookupSwitch v .. | throw v => v.occurrences idioms
  | invoke call =>
    Call.occurrences idioms ⟨call.kind, call.method, Value.occurrences? idioms call.base,
      Value.occurrencesAll idioms call.args⟩ false
  | goto _ | retVoid | nop | breakpoint | subroutineReturn _ => []

namespace Op

variable (idioms : List Idiom) {place source : Value}

/-- Storing in a heap location has the occurrences of the operand first. -/
theorem occurrences_store (h : place.isHeapLocation) : (assign place source).occurrences idioms =
    source.occurrences idioms ++ place.stores idioms := by
  cases place <;> first | rfl | cases h

/-- An assignment to a local has the occurrences of the operand. -/
theorem occurrences_slot (slot : Nat) (h : ∀ element size, source ≠ .newArray element size) :
    (assign (.slot slot) source).occurrences idioms = source.occurrences idioms := by
  cases source with
  | newArray element size => exact absurd rfl (h element size)
  | _ => exact List.append_nil _

end Op

/-! ### The effects among the events -/

/-- The effects of a trace are those of the occurrences that are not dropped. -/
def Trace.Performs (trace : Trace) (occurrences : List Occurrence) : Prop :=
  Event.effects trace.events = performed occurrences

namespace Trace.Performs

/-- Operands that are evaluated one after another. -/
theorem all {traces : List Trace} {occurrences : List (List Occurrence)}
    (h : List.Forall₂ Performs traces occurrences) : (Trace.all traces).Performs occurrences.flatten := by
  induction h with
  | nil => rfl
  | @cons trace first traces rest htrace _ ih =>
    have hall : (Trace.all (trace :: traces)).events = trace.events ++ (Trace.all traces).events := rfl
    rw [Performs, hall, Event.effects_append, htrace, ih, List.flatten_cons, performed_append]

/-- An operand that may be absent. -/
theorem orEmpty {trace : Option Trace} {occurrences : Option (List Occurrence)}
    (h : Option.Rel Performs trace occurrences) : (Trace.orEmpty trace).Performs (occurrences.getD []) := by
  cases h with
  | none => rfl
  | some h => exact h

end Trace.Performs

/-- The effects of a call are those of the operands that it evaluates, and the call itself unless an idiom
matches it. -/
theorem Call.effects_events {idioms : List Idiom} {call : Call Trace} {source : Call (List Occurrence)}
    (h : call.Rel Trace.Performs source) (hasResult : Bool) :
    Event.effects (call.events idioms hasResult) = performed (source.occurrences idioms hasResult) := by
  have hargs : Event.effects (Trace.all call.args).events = _ := Trace.Performs.all h.args
  have hbase : Event.effects (Trace.orEmpty call.base).events = _ := Trace.Performs.orEmpty h.base
  unfold Call.events Call.occurrences
  rw [← h.kind, ← h.method]
  by_cases hkind : call.kind = .dynamic
  · simp only [hkind, if_true, Event.effects_cons, Event.effects_append, hargs, hbase, performed_append,
      List.append_assoc]
    rfl
  · simp only [hkind, if_false]
    cases Idiom.lookup idioms ⟨call.method, hasResult⟩ with
    | none =>
      by_cases hreceiver : call.kind.hasReceiver <;>
      · simp only [hreceiver, if_true, Bool.false_eq_true, if_false, Event.effects_cons, Event.effects_append,
          hargs, hbase, performed_append, performed_lose, List.append_assoc]
        rfl
    | some kind =>
      cases kind <;> cases hasResult <;>
        simp [IdiomKind.events, IdiomKind.occurrences, hargs, hbase, Event.effect?]

namespace Value

variable (idioms : List Idiom)

mutual

/-- The effects of an operand are those that it asks for, apart from those that are dropped. -/
theorem effects_events : ∀ v : Value, Event.effects (v.events idioms) = performed (v.occurrences idioms)
  | slot _ | const _ | new _ | parameter .. | receiver _ | caughtException _ | staticField _ => rfl
  | newArray .. | newMultiArray .. => by rw [occurrences, performed_lose, events, Event.effects_nil]
  | unary _ v | cast _ v => effects_events v
  | instanceOf _ v | length v => by simp [events, occurrences, effects_events v]
  | binary _ v w => by simp [events, occurrences, effects_events v, effects_events w]
  | field v f => by
    rw [events, occurrences, Event.effects_append, performed_append, effects_events v]
    rfl
  | element v w => by
    rw [events, occurrences, Event.effects_append, Event.effects_append, performed_append, performed_append,
      effects_events v, effects_events w]
    rfl
  | call kind method base args => by
    rw [events, occurrences]
    exact Call.effects_events ⟨rfl, rfl, trace?_performs base, traces_perform args⟩ true

/-- The operands of a list perform what occurs in them, one by one. -/
theorem traces_perform : ∀ vs : List Value,
    List.Forall₂ Trace.Performs (traces idioms vs) (occurrencesAll idioms vs)
  | [] => .nil
  | v :: rest => .cons (effects_events v) (traces_perform rest)

/-- An operand that may be absent performs what occurs in it. -/
theorem trace?_performs : ∀ v : Option Value,
    Option.Rel Trace.Performs (trace? idioms v) (occurrences? idioms v)
  | none => .none
  | some v => .some (effects_events v)

end

/-- A heap location is stored in after its operands were evaluated. -/
theorem effects_writeEvents {place : Value} (hplace : place.isHeapLocation = true) (fresh : Bool) :
    Event.effects (place.writeEvents idioms fresh) = performed (place.stores idioms) := by
  cases place with
  | field v f =>
    rw [writeEvents, stores, Event.effects_append, performed_append, effects_events]
    rfl
  | staticField f => rfl
  | element v w =>
    rw [writeEvents, stores, Event.effects_append, Event.effects_append, performed_append, performed_append,
      effects_events, effects_events]
    rfl
  | _ => cases hplace

end Value

/-! ### Segments -/

/-- The effects of an operation that is lowered are those that it asks for, apart from those that are
dropped. Operations that are never lowered may ask for others. -/
theorem Lower.effects_of_operation {index : Nat} {op : Op Nat} {s t : LoweringState}
    (hrun : operation index op s = .ok () t) (idioms : List Idiom) :
    Event.effects (op.events idioms) = performed (op.occurrences idioms) := by
  cases op with
  | assign place source =>
    by_cases hplace : place.isHeapLocation
    · rw [Op.occurrences_store _ hplace, performed_append, Op.events, if_pos hplace, Event.effects_append,
        source.effects_events, Value.effects_writeEvents _ hplace]
    by_cases hslot : ∃ slot, place = .slot slot
    · obtain ⟨slot, rfl⟩ := hslot
      rw [Op.events, if_neg hplace]
      cases source with
      | newArray element size => simp [Value.assignEvents, Op.occurrences, Value.effects_events]
      | _ =>
        rw [Op.occurrences_slot _ slot (by simp), ← Value.effects_events]
        simp [Value.assignEvents]
    · rw [operation, assign_run_notAssignable (by simpa using hplace) fun slot h => hslot ⟨slot, h⟩] at hrun
      cases hrun
  | identity _ v | ret v | monitorEnter v | monitorExit v =>
    simp [Op.events, Op.occurrences, Value.effects_events, Event.effect?]
  | branch v _ => exact v.effects_events idioms
  | invoke call => exact Call.effects_events ⟨rfl, rfl, Value.trace?_performs .., Value.traces_perform ..⟩ false
  | tableSwitch | lookupSwitch | throw => cases hrun
  | goto | retVoid | nop | breakpoint | subroutineReturn => rfl

/-- The segment of a visit performs the effects of its instruction, apart from those that are dropped. -/
theorem Visit.During.enacts {body : Body} {p : Program} {s t : LoweringState} {v : Visit} {index : Nat}
    (h : v.During body s t index) (hp : p.Grows s.program) (hs : s.Proper) :
    Enacts t.program body (performed (v.instr.op.occurrences p.idioms)) v.segment := by
  obtain ⟨block, hopen⟩ := h.home
  have hwent := Lower.operation_went h.standing hopen h.run
  have henacts := hwent.shows.enacts (h.before.proper hs)
  rw [Lower.effects_of_operation h.run, (hp.trans h.before.program).idioms, h.standing.mapped.lowers] at henacts
  exact henacts.mono h.after.program

/-- The statements of a control-flow graph are those of the instructions, and those of an instruction
perform its effects. -/
structure Effective (body : Body) (idioms : List Idiom) (flow : Flow) (p : Program) (vs : List Visit) :
    Prop where
  instrs : vs.map Visit.instr = body.code.toList
  /-- The statements of a block are those of the instructions that belong to it. -/
  stmts : ∀ block, flow.graph.stmtsAt block =
    (vs.filter (·.home = some block)).flatMap Visit.segment
  /-- Every effect that is not dropped has one statement, in order, and there are no other accesses. -/
  effects : ∀ v ∈ vs, Enacts p body (performed (v.instr.op.occurrences idioms)) v.segment
  /-- An instruction performs all of its effects exactly if none is dropped. -/
  complete : ∀ v ∈ vs,
    (∀ occurrence ∈ v.instr.op.occurrences idioms, ¬ occurrence.effect.Hidden p body) →
    (Enacts p body ((v.instr.op.occurrences idioms).map effect) v.segment ↔
      ∀ occurrence ∈ v.instr.op.occurrences idioms, occurrence.lost = false)

namespace Session

/-- Every lowering that succeeds visits all instructions of the body. -/
theorem flowOf_instrs {body : Body} {oracle : PredecessorOracle} {p q : Program} {flow : Flow}
    (h : flowOf body oracle p = .ok flow q) :
    (visits body oracle p).map Visit.instr = body.code.toList := by
  by_cases hempty : body.code.isEmpty
  · obtain ⟨hvisits, -, -⟩ := flowOf_empty hempty h
    have hcode : body.code.toList = [] := by simpa using hempty
    rw [hvisits, hcode, List.map_nil]
  · obtain ⟨_, _, _, hpasses, -⟩ := flowOf_passes hempty h
    exact hpasses.instrs

/-- Effects are neither doubled nor reordered, and none is lost apart from those in operands that
lowering drops: the sizes of an array that is not assigned to a local as a whole, and the operands of
matched calls that their lowering has no use for. -/
theorem flowOf_effects {body : Body} {oracle : PredecessorOracle} {p q : Program} {flow : Flow}
    (hp : p.Named) (h : flowOf body oracle p = .ok flow q) :
    Effective body p.idioms flow q (visits body oracle p) := by
  obtain ⟨t, rfl, hgrows, hassembled⟩ := flowOf_assembled hp h
  have hstart : p.Grows (startOf body p).program := .of_supply p _ _ (next_le_start body p.supply)
  have henacts : ∀ v ∈ visits body oracle p,
      Enacts t.program body (performed (v.instr.op.occurrences p.idioms)) v.segment := by
    intro v hv
    obtain ⟨before, after, hvs⟩ := List.append_of_mem hv
    exact (hassembled.during_of_split hvs).enacts hstart hassembled.proper
  refine ⟨flowOf_instrs h, hassembled.stmts, henacts, fun v hv hvisible => ?_⟩
  exact (henacts v hv).complete_iff ((hstart.trans hgrows).named hp) hvisible

/-- A query of the length of a string that is read from a static field; nothing uses the answer. -/
def discardedLengthExample : Body where
  method := ⟨"Effects", "discarded", [], .prim .void⟩
  isStatic := true
  isSynchronized := false
  locals := #[]
  code := #[⟨.invoke ⟨.virtual, ⟨"java.lang.String", "length", [], .int⟩,
    some (.staticField ⟨"S", "s", .named "java.lang.String"⟩), []⟩, .unknown⟩, ⟨.retVoid, .unknown⟩]

/-- The body is lowered, and the read of the static field is lost: the query is dropped as a whole. -/
theorem flowOf_effects_discardedLength : ∃ flow q,
    (Program.new .standard).Named ∧
    flowOf discardedLengthExample discardedLengthExample.predecessorOracle (.new .standard) = .ok flow q ∧
      ∃ v ∈ visits discardedLengthExample discardedLengthExample.predecessorOracle (.new .standard),
        ¬ Enacts q discardedLengthExample
          ((v.instr.op.occurrences (Program.new .standard).idioms).map effect) v.segment := by
  have hnamed := Program.named_new .standard
  obtain ⟨flow, h⟩ := exists_ok
    (r := flowOf discardedLengthExample discardedLengthExample.predecessorOracle (.new .standard))
    (by decide +kernel)
  obtain ⟨hinstrs, -, -, hcomplete⟩ := flowOf_effects hnamed h
  obtain ⟨v, rest, hvs, hinstr, -⟩ := List.map_eq_cons_iff.mp hinstrs
  have hv : v ∈ visits discardedLengthExample discardedLengthExample.predecessorOracle (.new .standard) := by
    rw [hvs]
    exact List.mem_cons_self
  have hlookup : Idiom.lookup (Program.new .standard).idioms
      ⟨⟨"java.lang.String", "length", [], .int⟩, false⟩ = some .stringLength := by decide +kernel
  have hoccurrences : v.instr.op.occurrences (Program.new .standard).idioms =
      [⟨.read (.staticField ⟨"S", "s", .named "java.lang.String"⟩), true⟩] := by
    rw [hinstr, Op.occurrences, Call.occurrences]
    simp only [hlookup]
    rfl
  refine ⟨flow, _, hnamed, h, v, hv, fun hall => ?_⟩
  have hkept := (hcomplete v hv fun occurrence hmem => ?_).mp hall
  · rw [hoccurrences] at hkept
    cases hkept _ (List.mem_singleton_self _)
  · rw [hoccurrences] at hmem
    rw [List.mem_singleton.mp hmem]
    intro ⟨field, _, hname⟩
    -- the name of a static field does not begin as that of a heap map
    have hfirst := congrArg (fun name => name.map (·.toList.head?)) hname
    have hheap : (toString "$heap<").toList.head? = some '$' := by decide
    simp [Place.global?, FieldSig.qualifiedName, FieldSig.mapName, hheap] at hfirst

end Session

end GuardedFlow
