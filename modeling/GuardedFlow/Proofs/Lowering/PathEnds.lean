import GuardedFlow.Proofs.Lowering.InstructionTraces

/-!
# Where a path ends

Calls that exit the process or fail a test end the path in the middle of an instruction, at any depth
of its operands. `Value.pathEnd` finds the first such call in the order in which lowering reaches the
operands; operands that lowering does not evaluate do not count. The main statements are
`operand_ends` and `operation_ends`: every successful lowering of an operand, and of an operation that
does not jump, appends statements to the open block and then ends the path exactly as `pathEnd` tells.
-/

namespace GuardedFlow

/-- The first end of the path in the lowering of a call whose operands end it as given. -/
def Call.pathEnd (idioms : List Idiom) (call : Call (Option PathEnd)) (hasResult : Bool) :
    Option PathEnd :=
  let args := call.args.foldr Option.or none
  let base := call.base.join
  if call.kind = .dynamic then args.or base
  else
    match Idiom.lookup idioms ⟨call.method, hasResult⟩ with
    | none => args.or (if call.kind.hasReceiver then base else none)
    | some .assertion | some .precondition => args
    | some .stringLength => if hasResult then base else none
    | some .exit => some .halt
    | some .testFailure => some .leave
    | some .getClass => base
    | some .isAssignableFrom | some .cast | some .isInstance => base.or args

namespace Value

mutual

/-- The first end of the path in the lowering of an operand. -/
def pathEnd (idioms : List Idiom) : Value → Option PathEnd
  | slot _ | const _ | new _ | newArray .. | newMultiArray .. | staticField _ => none
  | parameter .. | receiver _ | caughtException _ => none
  | unary _ v | cast _ v | instanceOf _ v | length v | field v _ => v.pathEnd idioms
  | binary _ v w | element v w => (v.pathEnd idioms).or (w.pathEnd idioms)
  | call kind method base args =>
    Call.pathEnd idioms ⟨kind, method, pathEnd? idioms base, pathEnds idioms args⟩ true

/-- The ends of the path in the operands of a list. -/
def pathEnds (idioms : List Idiom) : List Value → List (Option PathEnd)
  | [] => []
  | v :: rest => v.pathEnd idioms :: pathEnds idioms rest

/-- The end of the path in an operand that may be absent. -/
def pathEnd? (idioms : List Idiom) : Option Value → Option (Option PathEnd)
  | none => none
  | some v => some (v.pathEnd idioms)

end

end Value

/-- The first end of the path in the lowering of an operation. Only an allocation that is assigned to
a local has its size evaluated. -/
def Op.pathEnd (idioms : List Idiom) : Op Nat → Option PathEnd
  | .assign place source =>
    if place.isHeapLocation then (source.pathEnd idioms).or (place.pathEnd idioms)
    else
      match source with
      | .newArray _ size => size.pathEnd idioms
      | source => source.pathEnd idioms
  | .identity _ v | .branch v _ | .monitorEnter v | .monitorExit v => v.pathEnd idioms
  | .invoke call =>
    Call.pathEnd idioms ⟨call.kind, call.method, Value.pathEnd? idioms call.base,
      Value.pathEnds idioms call.args⟩ false
  | .ret v => (v.pathEnd idioms).or (some .leave)
  | .retVoid => some .leave
  | _ => none

/-! ### The end of the path among the events -/

namespace Trace

variable (traces : List Trace) (trace : Option Trace)

/-- The first of several operands that ends the path does. -/
theorem pathEnd_all : Event.pathEnd (all traces).events =
    (traces.map fun trace => Event.pathEnd trace.events).foldr Option.or none := by
  induction traces with
  | nil => rfl
  | cons trace rest ih =>
    have hall : (all (trace :: rest)).events = trace.events ++ (all rest).events := rfl
    rw [hall, Event.pathEnd_append, ih]
    rfl

/-- An operand that is absent does not end the path. -/
theorem pathEnd_orEmpty : Event.pathEnd (orEmpty trace).events =
    (trace.map fun trace => Event.pathEnd trace.events).join := by
  cases trace <;> rfl

end Trace

/-- A call ends the path among its events where `pathEnd` tells. -/
theorem Call.pathEnd_events (idioms : List Idiom) (call : Call Trace) (hasResult : Bool) :
    Event.pathEnd (call.events idioms hasResult) =
      (call.map fun trace => Event.pathEnd trace.events).pathEnd idioms hasResult := by
  have hargs := Trace.pathEnd_all call.args
  have hbase := Trace.pathEnd_orEmpty call.base
  unfold Call.events Call.pathEnd Call.map
  by_cases hkind : call.kind = .dynamic
  · simp only [hkind, if_true, ← hargs, ← hbase]
    simp [Event.finish?]
  · simp only [hkind, if_false, ← hargs, ← hbase]
    cases Idiom.lookup idioms ⟨call.method, hasResult⟩ with
    | none => by_cases hreceiver : call.kind.hasReceiver <;> simp [hreceiver, Event.finish?, Trace.empty]
    | some kind => cases kind <;> cases hasResult <;> simp [IdiomKind.events, Event.finish?]

namespace Value

variable (idioms : List Idiom)

mutual

/-- An operand ends the path among its events where `pathEnd` tells. -/
theorem pathEnd_events : ∀ v : Value, Event.pathEnd (v.events idioms) = v.pathEnd idioms
  | slot _ | const _ | new _ | newArray .. | newMultiArray .. | staticField _ | parameter .. | receiver _
  | caughtException _ => rfl
  | unary _ v | cast _ v => pathEnd_events v
  | binary _ v w => by rw [events, Event.pathEnd_append, pathEnd_events v, pathEnd_events w, pathEnd]
  | instanceOf _ v | length v => by simp [events, pathEnd, pathEnd_events v]
  | field v _ => by simp [events, pathEnd, pathEnd_events v, Event.finish?]
  | element v w => by simp [events, pathEnd, pathEnd_events v, pathEnd_events w, Event.finish?]
  | call kind method base args => by
    rw [events, Call.pathEnd_events, pathEnd, Call.map, pathEnds_traces args, pathEnd?_trace? base]

/-- Where the operands of a list end the path. -/
theorem pathEnds_traces : ∀ vs : List Value,
    ((traces idioms vs).map fun trace => Event.pathEnd trace.events) = pathEnds idioms vs
  | [] => rfl
  | v :: rest => by rw [traces, List.map_cons, pathEnds, pathEnd_events v, pathEnds_traces rest]

/-- Where an operand that may be absent ends the path. -/
theorem pathEnd?_trace? : ∀ v : Option Value,
    ((trace? idioms v).map fun trace => Event.pathEnd trace.events) = pathEnd? idioms v
  | none => rfl
  | some v => by rw [trace?, Option.map_some, pathEnd?, pathEnd_events v]

end

/-- A heap location ends the path where its operands do, whether it is read or written. -/
theorem pathEnd_writeEvents {place : Value} (hplace : place.isHeapLocation = true) (fresh : Bool) :
    Event.pathEnd (place.writeEvents idioms fresh) = place.pathEnd idioms := by
  cases place with
  | field v f => simp [writeEvents, pathEnd, pathEnd_events, Event.finish?]
  | staticField f => rfl
  | element v w => simp [writeEvents, pathEnd, pathEnd_events, Event.finish?]
  | _ => cases hplace

end Value

/-- An operation ends the path among its events where `pathEnd` tells. -/
theorem Op.pathEnd_events (idioms : List Idiom) (op : Op Nat) :
    Event.pathEnd (op.events idioms) = op.pathEnd idioms := by
  cases op with
  | assign place source =>
    change Event.pathEnd (if place.isHeapLocation then _ else _) = if place.isHeapLocation then _ else _
    by_cases hplace : place.isHeapLocation
    · rw [if_pos hplace, if_pos hplace, Event.pathEnd_append, source.pathEnd_events,
        Value.pathEnd_writeEvents idioms hplace]
    · rw [if_neg hplace, if_neg hplace]
      cases source <;> simp [Value.assignEvents, Value.pathEnd_events]
  | identity _ v => simp [events, pathEnd, Value.pathEnd_events]
  | branch v _ => exact v.pathEnd_events idioms
  | monitorEnter v | monitorExit v => simp [events, pathEnd, Value.pathEnd_events, Event.finish?]
  | invoke call =>
    rw [events, Call.pathEnd_events, pathEnd, Call.map, Value.pathEnds_traces, Value.pathEnd?_trace?]
  | ret v => simp [events, pathEnd, Value.pathEnd_events, Event.finish?]
  | _ => rfl

/-- A path that has ended on a first part of the events ends on all of them. -/
theorem Event.pathEnd_prefix {events done : List Event} (h : done <+: events)
    (hend : (pathEnd done).isSome = true) : (pathEnd events).isSome = true := by
  obtain ⟨rest, rfl⟩ := h
  rw [pathEnd_append, Option.isSome_or, hend, Bool.true_or]

/-! ### Steps that end the path -/

namespace Lower

variable {α : Type} {idioms : List Idiom}

/-- In a program with the given idioms, every answer of `m` comes after the given end of the path, and
its statements are located at the current instruction. It fails in ready states only as steps do whose path
may have ended on the way. -/
structure Ends (idioms : List Idiom) (m : Lower α) (fin : Option PathEnd) : Prop where
  yields : ∀ s : LoweringState, s.program.idioms = idioms →
    Yields m s fun out fin' _ _ => fin' = fin ∧ ∀ stmt ∈ out, stmt.location = s.draft.location
  fails : ∀ s e t, s.program.idioms = idioms → s.Ready → m s = .error e t → s.Refuses fin.isSome e

namespace Ends

variable {m : Lower α} {fin : Option PathEnd}

/-- A step ends the path where its events do. -/
theorem of_traces (events : List Idiom → List Event) {P : LoweringState → α → Prop}
    (h : ∀ s, Traces s m (events s.program.idioms) (P s)) (hfin : Event.pathEnd (events idioms) = fin) :
    Ends idioms m fin := by
  subst hfin
  refine ⟨fun s hs => ?_, fun s e t hs hready hrun => ?_⟩
  · subst hs
    exact ((h s).yields s (.refl s)).mono fun _ _ _ _ _ ⟨hfin, hwent, _⟩ => ⟨hfin, hwent.shows.located⟩
  · subst hs
    obtain ⟨done, hpart, -, hrefuses⟩ := (h s).fails s e t (.refl s) hrun
    exact (hrefuses hready).mono (Event.pathEnd_prefix hpart)

/-- What an answer says about the states around it. -/
theorem ok (h : Ends idioms m fin) {s t : LoweringState} {a : α} (hs : s.program.idioms = idioms)
    (hrun : m s = .ok a t) : ∃ out, Emits s out fin t ∧ ∀ stmt ∈ out, stmt.location = s.draft.location := by
  obtain ⟨out, _, hemits, rfl, hout⟩ := (h.yields s hs).ok a t hrun
  exact ⟨out, hemits, hout⟩

end Ends

/-- Every successful lowering of an operand ends the path as the operand tells. -/
theorem operand_ends (v : Value) : Ends idioms (operand v) (v.pathEnd idioms) :=
  .of_traces (v.events ·) (fun _ => operand_traces v) (v.pathEnd_events idioms)

/-- Every successful lowering of an operation that does not jump ends the path as the operation
tells. -/
theorem operation_ends (index : Nat) (op : Op Nat) (h : op.jumpTargets = []) :
    Ends idioms (operation index op) (op.pathEnd idioms) :=
  .of_traces (op.events ·) (fun _ => operation_traces index op h) (op.pathEnd_events idioms)

end Lower

end GuardedFlow
