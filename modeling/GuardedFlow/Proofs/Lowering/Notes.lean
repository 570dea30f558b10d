import Mathlib.Data.List.Perm.Basic
import GuardedFlow.Proofs.Lowering.Events
import GuardedFlow.Proofs.Lowering.Failures

/-!
# What a lowering tells the program

A lowering tells the program which methods it calls, and it reports what it does not model: indirect calls
that become opaque ones, calls that exit the process, monitors. `Op.notes` lists all this from the
instruction alone, in the order in which it is told; operands that lowering does not evaluate tell nothing.
These are the notes among the events of the instruction. An indirect call is told before its operands are
lowered and appended after them, so the opaque calls are those of the notes in another order.
-/

namespace GuardedFlow

/-- The notes on calls are about methods of the given call sites, and none is about a monitor. -/
def Note.Concerns (sites : List CallSite) : Note → Prop
  | resolved method | halted method => ∃ site ∈ sites, site.method = method
  | indirect _ => True
  | monitor .. => False

/-- The notes of a matched call, when those of its operands are known. -/
def IdiomKind.notes (method : MethodSig) (base args : List Note) (hasResult : Bool) :
    IdiomKind → List Note
  | assertion | precondition => args
  | stringLength => if hasResult then base else []
  | exit => [.halted method]
  | testFailure => []
  | getClass => base
  | isAssignableFrom | cast | isInstance => base ++ args

/-- The notes of a call, when those of its operands are known. -/
def Call.notes (idioms : List Idiom) (call : Call (List Note)) (hasResult : Bool) : List Note :=
  let args := call.args.flatten
  let base := call.base.getD []
  if call.kind = .dynamic then .indirect call.method.text :: (args ++ base)
  else
    match Idiom.lookup idioms ⟨call.method, hasResult⟩ with
    | some kind => kind.notes call.method base args hasResult
    | none => args ++ (if call.kind.hasReceiver then base else []) ++ [.resolved call.method]

namespace Value

mutual

/-- What the lowering of an operand tells the program, in order. -/
def notes (idioms : List Idiom) : Value → List Note
  | slot _ | const _ | new _ | newArray .. | newMultiArray .. | staticField _ | parameter ..
  | receiver _ | caughtException _ => []
  | unary _ v | cast _ v | instanceOf _ v | length v | field v _ => v.notes idioms
  | binary _ v w | element v w => v.notes idioms ++ w.notes idioms
  | call kind method base args =>
    Call.notes idioms ⟨kind, method, notes? idioms base, notesAll idioms args⟩ true

/-- What the lowerings of the operands of a list tell the program. -/
def notesAll (idioms : List Idiom) : List Value → List (List Note)
  | [] => []
  | v :: rest => v.notes idioms :: notesAll idioms rest

/-- What the lowering of an operand that may be absent tells the program. -/
def notes? (idioms : List Idiom) : Option Value → Option (List Note)
  | none => none
  | some v => some (v.notes idioms)

end

end Value

/-- What the lowering of an operation tells the program, in order. -/
def Op.notes (idioms : List Idiom) : Op Nat → List Note
  | assign place source =>
    if place.isHeapLocation then source.notes idioms ++ place.notes idioms
    else
      match source with
      | .newArray _ size => size.notes idioms
      | source => source.notes idioms
  | identity _ v | branch v _ | ret v => v.notes idioms
  | monitorEnter lock => lock.notes idioms ++ [.monitor "entermonitor" lock]
  | monitorExit lock => lock.notes idioms ++ [.monitor "exitmonitor" lock]
  | invoke call =>
    Call.notes idioms ⟨call.kind, call.method, Value.notes? idioms call.base,
      Value.notesAll idioms call.args⟩ false
  | tableSwitch .. | lookupSwitch .. | throw _ => []
  | goto _ | retVoid | nop | breakpoint | subroutineReturn _ => []

/-! ### The notes among the events -/

/-- The notes of a matched call are those among its events. -/
theorem IdiomKind.notes_events (method : MethodSig) (base arg : Trace) (hasResult : Bool)
    (kind : IdiomKind) : Event.notes (kind.events method base arg hasResult) =
      kind.notes method (Event.notes base.events) (Event.notes arg.events) hasResult := by
  cases kind <;> cases hasResult <;> simp [events, notes, Event.note?]

namespace Trace

/-- The notes of operands that are evaluated one after another. -/
theorem notes_all (traces : List Trace) : Event.notes (all traces).events =
    (traces.map fun trace => Event.notes trace.events).flatten := by
  induction traces with
  | nil => rfl
  | cons trace rest ih =>
    have hall : (all (trace :: rest)).events = trace.events ++ (all rest).events := rfl
    rw [hall, Event.notes_append, ih, List.map_cons, List.flatten_cons]

/-- The notes of an operand that may be absent. -/
theorem notes_orEmpty (trace : Option Trace) : Event.notes (orEmpty trace).events =
    (trace.map fun trace => Event.notes trace.events).getD [] := by
  cases trace <;> rfl

end Trace

/-- The notes of a call are those among its events. -/
theorem Call.notes_events (idioms : List Idiom) (call : Call Trace) (hasResult : Bool) :
    Event.notes (call.events idioms hasResult) =
      (call.map fun trace => Event.notes trace.events).notes idioms hasResult := by
  have hargs := Trace.notes_all call.args
  have hbase := Trace.notes_orEmpty call.base
  unfold Call.events Call.notes Call.map
  by_cases hkind : call.kind = .dynamic
  · simp only [hkind, if_true, ← hargs, ← hbase]
    simp [Event.note?]
  · simp only [hkind, if_false, ← hargs, ← hbase]
    cases Idiom.lookup idioms ⟨call.method, hasResult⟩ with
    | some kind => exact kind.notes_events ..
    | none => by_cases hreceiver : call.kind.hasReceiver <;> simp [hreceiver, Event.note?, Trace.empty]

namespace Value

variable (idioms : List Idiom)

mutual

/-- The notes of an operand are those among its events. -/
theorem notes_events : ∀ v : Value, Event.notes (v.events idioms) = v.notes idioms
  | slot _ | const _ | new _ | newArray .. | newMultiArray .. | staticField _ | parameter .. | receiver _
  | caughtException _ => rfl
  | unary _ v | cast _ v => notes_events v
  | binary _ v w => by rw [events, Event.notes_append, notes_events v, notes_events w, notes]
  | instanceOf _ v | length v => by simp [events, notes, notes_events v]
  | field v _ => by simp [events, notes, notes_events v, Event.note?]
  | element v w => by simp [events, notes, notes_events v, notes_events w, Event.note?]
  | call kind method base args => by
    rw [events, Call.notes_events, notes, Call.map, notesAll_traces args, notes?_trace? base]

/-- The notes of the operands of a list. -/
theorem notesAll_traces : ∀ vs : List Value,
    ((traces idioms vs).map fun trace => Event.notes trace.events) = notesAll idioms vs
  | [] => rfl
  | v :: rest => by rw [traces, List.map_cons, notesAll, notes_events v, notesAll_traces rest]

/-- The notes of an operand that may be absent. -/
theorem notes?_trace? : ∀ v : Option Value,
    ((trace? idioms v).map fun trace => Event.notes trace.events) = notes? idioms v
  | none => rfl
  | some v => by rw [trace?, Option.map_some, notes?, notes_events v]

end

/-- Storing a value in a heap location has the notes of the location. -/
theorem notes_writeEvents {place : Value} (hplace : place.isHeapLocation = true) (fresh : Bool) :
    Event.notes (place.writeEvents idioms fresh) = place.notes idioms := by
  cases place with
  | staticField => rfl
  | field v _ => simp [writeEvents, notes, notes_events, Event.note?]
  | element v w => simp [writeEvents, notes, notes_events, Event.note?]
  | _ => cases hplace

end Value

/-- The notes of an operation are those among its events. -/
theorem Op.notes_events (idioms : List Idiom) (op : Op Nat) :
    Event.notes (op.events idioms) = op.notes idioms := by
  cases op with
  | assign place source =>
    unfold events notes
    by_cases hplace : place.isHeapLocation
    · simp only [hplace, if_true, Event.notes_append, Value.notes_events,
        Value.notes_writeEvents idioms hplace]
    · simp only [hplace]
      cases source <;> simp [Value.assignEvents, Value.notes_events]
  | identity | ret | monitorEnter | monitorExit => simp [events, notes, Value.notes_events, Event.note?]
  | branch v _ => exact v.notes_events idioms
  | invoke call =>
    rw [events, Call.notes_events, Call.map, Value.notesAll_traces, Value.notes?_trace?]
    rfl
  | _ => rfl

/-! ### Opaque calls -/

/-- The opaque calls among events are those that are told, in another order. -/
def Event.Warned (events : List Event) : Prop := (indirect events).Perm ((notes events).filterMap Note.indirect?)

namespace Event.Warned

variable {events more : List Event}

/-- Events without notes and calls. -/
theorem of_quiet (hnotes : notes events = []) (hindirect : indirect events = []) : Warned events := by
  rw [Warned, hnotes, hindirect]
  exact .nil

/-- Statements that lowering adds on its own are no calls. -/
theorem owned (fresh : Bool) : Warned (owned fresh) := .of_quiet (by simp) (by simp)

/-- Statements that set a variable are no calls. -/
theorem stored (fresh : Bool) : Warned (stored fresh) := .of_quiet (by simp) (by simp)

/-- Events one after another. -/
theorem append (h : Warned events) (h' : Warned more) : Warned (events ++ more) := by
  rw [Warned, indirect_append, notes_append, List.filterMap_append]
  exact List.Perm.append h h'

end Event.Warned

namespace Trace

/-- Opaque calls in operands that are evaluated one after another are told. -/
theorem warned_all {traces : List Trace} (h : ∀ trace ∈ traces, Event.Warned trace.events) :
    Event.Warned (all traces).events := by
  induction traces with
  | nil => exact .of_quiet rfl rfl
  | cons trace rest ih =>
    exact (h trace List.mem_cons_self).append (ih fun other hother => h other (List.mem_cons_of_mem _ hother))

/-- Opaque calls in an operand that may be absent are told. -/
theorem warned_orEmpty {trace : Option Trace} (h : ∀ t ∈ trace, Event.Warned t.events) :
    Event.Warned (orEmpty trace).events := by
  cases trace with
  | none => exact .of_quiet rfl rfl
  | some trace => exact h trace rfl

end Trace

/-- Opaque calls in the operands of a matched call are told, as far as these are evaluated. -/
theorem IdiomKind.warned (method : MethodSig) {base arg : Trace} (hbase : Event.Warned base.events)
    (harg : Event.Warned arg.events) (hasResult : Bool) (kind : IdiomKind) :
    Event.Warned (kind.events method base arg hasResult) := by
  cases kind with
  | assertion | precondition => exact harg.append (.owned _)
  | stringLength =>
    cases hasResult with
    | false => exact .of_quiet rfl rfl
    | true => exact hbase.append (.owned _)
  | exit => exact .nil
  | testFailure => exact .of_quiet rfl rfl
  | getClass => exact hbase.append (.owned _)
  | isAssignableFrom => exact hbase.append (harg.append (.owned _))
  | cast => exact hbase.append (harg.append (.append (.owned _) (.append (.owned _) (.stored _))))
  | isInstance => exact hbase.append (harg.append (.append (.owned _) (.owned _)))

/-- An opaque call is told before those in its operands, and appended after them. -/
theorem Call.warned (idioms : List Idiom) {call : Call Trace} (hbase : ∀ t ∈ call.base, Event.Warned t.events)
    (hargs : ∀ t ∈ call.args, Event.Warned t.events) (hasResult : Bool) :
    Event.Warned (call.events idioms hasResult) := by
  have hall := Trace.warned_all hargs
  have hreceiver := Trace.warned_orEmpty hbase
  unfold Call.events
  by_cases hkind : call.kind = .dynamic
  · simp only [hkind, if_true, Event.Warned, Event.indirect_cons, Event.indirect_append, Event.notes_cons,
      Event.notes_append]
    simpa [Event.indirect?, Event.note?, Note.indirect?, Event.Warned] using
      (List.perm_append_singleton _ _).trans ((hall.append hreceiver).cons _)
  · simp only [hkind, if_false]
    cases Idiom.lookup idioms ⟨call.method, hasResult⟩ with
    | some kind => exact kind.warned _ hreceiver hall hasResult
    | none =>
      refine (hall.append ?_).append ?_
      · split
        · exact hreceiver
        · exact .of_quiet rfl rfl
      · simp [Event.Warned, Event.indirect?, Event.note?, Note.indirect?, hkind]

namespace Value

variable (idioms : List Idiom)

mutual

/-- The opaque calls in an operand are told. -/
theorem warned : ∀ v : Value, Event.Warned (v.events idioms)
  | slot _ | const _ | new _ | newArray .. | newMultiArray .. | staticField _ | parameter .. | receiver _
  | caughtException _ => .of_quiet rfl rfl
  | unary _ v | cast _ v => warned v
  | binary _ v w => (warned v).append (warned w)
  | instanceOf _ v | length v => (warned v).append (.owned _)
  | field v _ => (warned v).append (.of_quiet rfl rfl)
  | element v w => (warned v).append ((warned w).append (.of_quiet rfl rfl))
  | call _ _ base args => Call.warned idioms (warned_trace? base) (warned_traces args) true

/-- The opaque calls in the operands of a list are told. -/
theorem warned_traces : ∀ vs : List Value, ∀ t ∈ traces idioms vs, Event.Warned t.events
  | v :: rest, t, h => by
    rcases List.mem_cons.mp h with rfl | h
    · exact warned v
    · exact warned_traces rest t h

/-- The opaque calls in an operand that may be absent are told. -/
theorem warned_trace? : ∀ v : Option Value, ∀ t ∈ trace? idioms v, Event.Warned t.events
  | some v, t, h => by
    cases h
    exact warned v

end

end Value

/-- The opaque calls in an operation are told. -/
theorem Op.warned (idioms : List Idiom) (op : Op Nat) : Event.Warned (op.events idioms) := by
  have hvalue (v : Value) : Event.Warned (v.events idioms) := v.warned idioms
  cases op with
  | assign place source =>
    rw [events]
    split
    · refine (hvalue source).append ?_
      cases place with
      | field v _ => exact (hvalue v).append (.of_quiet rfl rfl)
      | element v w => exact (hvalue v).append ((hvalue w).append (.of_quiet rfl rfl))
      | _ => exact .of_quiet rfl rfl
    · cases source with
      | field | staticField | element | length | call => exact hvalue _
      | newArray _ size => exact .append (.stored true) ((hvalue size).append (.owned _))
      | _ => exact .append (hvalue _) (.stored _)
  | identity _ v => exact (hvalue v).append (.stored _)
  | ret v => exact (hvalue v).append (.append (.owned _) (.of_quiet rfl rfl))
  | branch v _ => exact hvalue v
  | monitorEnter v | monitorExit v => exact (hvalue v).append .nil
  | invoke call => exact Call.warned idioms (Value.warned_trace? idioms _) (Value.warned_traces idioms _) false
  | _ => exact .of_quiet rfl rfl

/-! ### What notes are about -/

namespace Note

variable {sites more : List CallSite} {note : Note}

/-- Notes about some call sites are about more of them. -/
theorem Concerns.mono (h : note.Concerns sites) (hsites : sites ⊆ more) : note.Concerns more := by
  cases note with
  | resolved | halted =>
    obtain ⟨site, hsite, hmethod⟩ := h
    exact ⟨site, hsites hsite, hmethod⟩
  | indirect => trivial
  | monitor => exact h

end Note

/-- The notes of a call are about its method and about the calls in its operands. -/
theorem Call.concerns {idioms : List Idiom} {call : Call (List Note)} {hasResult : Bool}
    {base args : List CallSite} (hbase : ∀ note ∈ call.base.getD [], note.Concerns base)
    (hargs : ∀ note ∈ call.args.flatten, note.Concerns args) :
    ∀ note ∈ call.notes idioms hasResult,
      note.Concerns (CallSite.of call.kind call.method hasResult ++ base ++ args) := by
  intro note hnote
  have hbase' (h : note ∈ call.base.getD []) :
      note.Concerns (CallSite.of call.kind call.method hasResult ++ base ++ args) :=
    (hbase note h).mono fun site hsite => by simp [hsite]
  have hargs' (h : note ∈ call.args.flatten) :
      note.Concerns (CallSite.of call.kind call.method hasResult ++ base ++ args) :=
    (hargs note h).mono fun site hsite => by simp [hsite]
  unfold Call.notes at hnote
  by_cases hkind : call.kind = .dynamic
  · simp only [hkind, if_true, List.mem_cons, List.mem_append] at hnote
    rcases hnote with rfl | hnote | hnote
    · trivial
    · exact hargs' hnote
    · exact hbase' hnote
  · have hsite : ⟨call.method, hasResult⟩ ∈
        CallSite.of call.kind call.method hasResult ++ base ++ args := by simp [CallSite.of, hkind]
    simp only [hkind, if_false] at hnote
    cases hlookup : Idiom.lookup idioms ⟨call.method, hasResult⟩ with
    | none =>
      simp only [hlookup, List.mem_append, List.mem_singleton] at hnote
      rcases hnote with (hnote | hnote) | rfl
      · exact hargs' hnote
      · split at hnote
        · exact hbase' hnote
        · cases hnote
      · exact ⟨_, hsite, rfl⟩
    | some kind =>
      simp only [hlookup] at hnote
      cases kind with
      | assertion | precondition => exact hargs' hnote
      | stringLength =>
        simp only [IdiomKind.notes] at hnote
        split at hnote
        · exact hbase' hnote
        · cases hnote
      | exit =>
        obtain rfl := List.mem_singleton.mp hnote
        exact ⟨_, hsite, rfl⟩
      | testFailure => cases hnote
      | getClass => exact hbase' hnote
      | isAssignableFrom | cast | isInstance => exact (List.mem_append.mp hnote).elim hbase' hargs'

namespace Value

variable {idioms : List Idiom}

mutual

/-- The notes of an operand are about the calls in it. -/
theorem concerns : ∀ (v : Value), ∀ note ∈ v.notes idioms, note.Concerns v.callSites
  | slot _, _, h | const _, _, h | new _, _, h | newArray .., _, h | newMultiArray .., _, h
  | staticField _, _, h | parameter .., _, h | receiver _, _, h | caughtException _, _, h => nomatch h
  | unary _ v, note, h | cast _ v, note, h | instanceOf _ v, note, h | length v, note, h
  | field v _, note, h => concerns v note h
  | binary _ v w, note, h | element v w, note, h => by
    rcases List.mem_append.mp h with h | h
    · exact (concerns v note h).mono (List.subset_append_left _ _)
    · exact (concerns w note h).mono (List.subset_append_right _ _)
  | call _ _ base args, note, h => Call.concerns (concerns? base) (concernsAll args) note h

/-- The notes of the operands of a list are about the calls in them. -/
theorem concernsAll : ∀ (vs : List Value), ∀ note ∈ (notesAll idioms vs).flatten,
    note.Concerns (callSitesOf vs)
  | [], _, h => nomatch h
  | v :: rest, note, h => by
    rw [notesAll, List.flatten_cons] at h
    rcases List.mem_append.mp h with h | h
    · exact (concerns v note h).mono (List.subset_append_left _ _)
    · exact (concernsAll rest note h).mono (List.subset_append_right _ _)

/-- The notes of an operand that may be absent are about the calls in it. -/
theorem concerns? : ∀ (v : Option Value), ∀ note ∈ (notes? idioms v).getD [],
    note.Concerns (callSites? v)
  | none, _, h => nomatch h
  | some v, note, h => concerns v note h

end

end Value

/-- The monitor that an operation enters or leaves. -/
def Op.monitor? : Op Nat → Option (String × Value)
  | monitorEnter lock => some ("entermonitor", lock)
  | monitorExit lock => some ("exitmonitor", lock)
  | _ => none

/-- The notes of an operation are about the calls in it, but for a last one about its monitor. -/
theorem Op.notes_eq (idioms : List Idiom) (op : Op Nat) : ∃ notes,
    op.notes idioms = notes ++ (op.monitor?.map fun (name, lock) => .monitor name lock).toList ∧
    ∀ note ∈ notes, note.Concerns op.callSites := by
  have hvalue {v : Value} {sites : List CallSite} (hsites : v.callSites ⊆ sites) :
      ∀ note ∈ v.notes idioms, note.Concerns sites := fun note hnote => (v.concerns note hnote).mono hsites
  cases op with
  | assign place source =>
    refine ⟨_, (List.append_nil _).symm, fun note hnote => ?_⟩
    have hsource := hvalue (v := source) (List.subset_append_right place.callSites _)
    simp only [notes] at hnote
    by_cases hplace : place.isHeapLocation
    · rw [if_pos hplace] at hnote
      rcases List.mem_append.mp hnote with hnote | hnote
      · exact hsource note hnote
      · exact hvalue (List.subset_append_left _ _) note hnote
    · rw [if_neg hplace] at hnote
      cases source with
      | newArray element size =>
        have hsize : size.callSites ⊆ (assign place (.newArray element size) : Op Nat).callSites :=
          List.subset_append_right place.callSites _
        exact hvalue hsize note hnote
      | _ => exact hsource note hnote
  | identity _ v | branch v _ | ret v => exact ⟨_, (List.append_nil _).symm, v.concerns⟩
  | monitorEnter lock | monitorExit lock => exact ⟨_, rfl, lock.concerns⟩
  | invoke call =>
    exact ⟨_, (List.append_nil _).symm, Call.concerns (Value.concerns? _) (Value.concernsAll _)⟩
  | tableSwitch | lookupSwitch | throw | goto | retVoid | nop | breakpoint | subroutineReturn =>
    exact ⟨[], rfl, fun _ h => nomatch h⟩

end GuardedFlow
