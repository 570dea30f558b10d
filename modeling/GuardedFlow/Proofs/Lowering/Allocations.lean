import GuardedFlow.Proofs.Lowering.InstructionTraces

/-!
# Where allocations go

A fresh reference stays in the lowered expression of an operand as long as the operand is not read
through or passed on; then it goes into a statement. `Value.holds` tells whether the expression of an
operand contains one, and `Value.spills` whether the statements for it do. Both depend on the operand
and the idioms only, and `operand_leaks` states that they are exact.
-/

namespace GuardedFlow

/-- A fresh reference leaks in one of the statements, or none of them contains one. -/
def Spills (spilled : Bool) (out : List Stmt) : Prop :=
  if spilled then ∃ stmt ∈ out, stmt.kind.leaks else ∀ stmt ∈ out, stmt.kind.allocates = false

namespace Spills

variable {out out' : List Stmt} {b b' : Bool}

/-- No statement spills nothing. -/
theorem nil : Spills false [] := fun _ h => absurd h List.not_mem_nil

/-- What leaks first has leaked. -/
theorem before (h : Spills true out) (out' : List Stmt) : Spills true (out ++ out') := by
  obtain ⟨stmt, hmem, hleaks⟩ := h
  exact ⟨stmt, List.mem_append_left _ hmem, hleaks⟩

/-- Statements one after another spill what one of them does. -/
theorem append (h : Spills b out) (h' : Spills b' out') : Spills (b || b') (out ++ out') := by
  cases b with
  | true => exact h.before out'
  | false =>
    cases b' with
    | true =>
      obtain ⟨stmt, hmem, hleaks⟩ := h'
      exact ⟨stmt, List.mem_append_right _ hmem, hleaks⟩
    | false =>
      intro stmt hmem
      rcases List.mem_append.mp hmem with hmem | hmem
      · exact h stmt hmem
      · exact h' stmt hmem

/-- A statement that does not set a local to a fresh reference leaks all that it contains. -/
theorem stmt {location : Location} {kind : StmtKind} (hfresh : kind.fresh? = none)
    (hkind : kind.allocates = b) : Spills b [⟨location, kind⟩] := by
  cases b with
  | true =>
    have hleaks : kind.leaks = true := by rw [StmtKind.leaks, hkind, hfresh, Option.isNone_none, Bool.and_self]
    exact ⟨_, List.mem_singleton_self _, hleaks⟩
  | false =>
    intro s hs
    rw [List.mem_singleton.mp hs]
    exact hkind

/-- Fresh references leak where events show it. The values of variables count in neither way or in both. -/
theorem of_shows {s : LoweringState} {p : Program} {location : Location} {events : List Event}
    (h : s.Shows p location events out) (hs : s.Proper)
    (hfrees : ∀ stores, Event.frees stores events = b) : Spills b out := by
  cases b with
  | true => exact h.leaks hs (hfrees false)
  | false => exact h.clean (hfrees true)

end Spills

/-- Whether a fresh reference goes into the statements for a call, when it is known which operands
hold or spill one. -/
def Call.spills (idioms : List Idiom) (call : Call Bool) (hasResult : Bool) : Bool :=
  let args := call.args.any id
  let base := call.base.getD false
  if call.kind = .dynamic then args || base
  else
    match Idiom.lookup idioms ⟨call.method, hasResult⟩ with
    | none => args || (call.kind.hasReceiver && base)
    | some .assertion | some .precondition => args
    | some .stringLength => hasResult && base
    | some .exit | some .testFailure => false
    | some .getClass => base
    | some .isAssignableFrom | some .cast | some .isInstance => base || args

namespace Value

mutual

/-- Whether the statements for an operand contain a fresh reference. -/
def spills (idioms : List Idiom) : Value → Bool
  | slot _ | const _ | new _ | newArray .. | newMultiArray .. | staticField _ => false
  | parameter .. | receiver _ | caughtException _ => false
  | unary _ v | cast _ v => v.spills idioms
  | binary _ v w => v.spills idioms || w.spills idioms
  | instanceOf _ v | length v | field v _ => v.spills idioms || v.holds
  | element v w => (v.spills idioms || v.holds) || (w.spills idioms || w.holds)
  | call kind method base args =>
    Call.spills idioms ⟨kind, method, taint? idioms base, taints idioms args⟩ true

/-- Which operands of a list hold or spill a fresh reference. -/
def taints (idioms : List Idiom) : List Value → List Bool
  | [] => []
  | v :: rest => (v.spills idioms || v.holds) :: taints idioms rest

/-- Whether an operand that may be absent holds or spills a fresh reference. -/
def taint? (idioms : List Idiom) : Option Value → Option Bool
  | none => none
  | some v => some (v.spills idioms || v.holds)

end

end Value

/-! ### Fresh references among the events -/

variable {idioms : List Idiom} {stores : Bool}

/-- Whether a fresh reference goes into the statements for an operand, or into its expression. -/
def Trace.taints (stores : Bool) (trace : Trace) : Bool := Event.frees stores trace.events || trace.held

/-- Operands one after another are tainted if one of them is. -/
theorem Trace.taints_all (traces : List Trace) :
    (all traces).taints stores = (traces.map (taints stores)).any id := by
  induction traces with
  | nil => rfl
  | cons trace rest ih =>
    rw [List.map_cons, List.any_cons, ← ih]
    change (Event.frees stores (trace.events ++ (all rest).events) || (trace.held || (all rest).held)) = _
    rw [Event.frees_append, id, taints, taints]
    generalize Event.frees stores trace.events = a
    generalize Event.frees stores (all rest).events = b
    cases a <;> cases b <;> cases trace.held <;> rfl

/-- The fresh references of a call are those of the operands that it evaluates. -/
theorem Call.frees_events (call : Call Trace) (hasResult : Bool) : Event.frees stores
    (call.events idioms hasResult) = (call.map (Trace.taints stores)).spills idioms hasResult := by
  have hargs : (Event.frees stores (Trace.all call.args).events || (Trace.all call.args).held) =
      (call.args.map (Trace.taints stores)).any id := Trace.taints_all call.args
  have hbase : (Event.frees stores (Trace.orEmpty call.base).events || (Trace.orEmpty call.base).held) =
      (call.base.map (Trace.taints stores)).getD false := by cases call.base <;> rfl
  unfold Call.events Call.spills Call.map
  dsimp only
  rw [← hargs, ← hbase]
  by_cases hkind : call.kind = .dynamic
  · simp only [hkind, if_true, Event.frees_cons, Event.frees_append, Event.frees_nil, Event.counts]
    generalize Event.frees stores (Trace.all call.args).events = a
    generalize Event.frees stores (Trace.orEmpty call.base).events = b
    cases a <;> cases b <;> simp
  · simp only [hkind, if_false]
    cases Idiom.lookup idioms ⟨call.method, hasResult⟩ with
    | none =>
      by_cases hreceiver : call.kind.hasReceiver
      · simp only [hreceiver, if_true, Event.frees_cons, Event.frees_append, Event.frees_nil, Event.counts]
        generalize Event.frees stores (Trace.all call.args).events = a
        generalize Event.frees stores (Trace.orEmpty call.base).events = b
        cases a <;> cases b <;> simp
      · simp [hreceiver, Event.counts, Trace.empty]
    | some kind =>
      generalize ha : Event.frees stores (Trace.all call.args).events = a
      generalize hb : Event.frees stores (Trace.orEmpty call.base).events = b
      cases kind <;> simp [IdiomKind.events, ha, hb, Event.counts] <;>
        cases a <;> cases b <;> cases hasResult <;> cases stores <;> simp [hb, Bool.or_comm]

namespace Value

mutual

/-- The fresh references of an operand are those that it spills. -/
theorem frees_events : ∀ v : Value, Event.frees stores (v.events idioms) = v.spills idioms
  | slot _ | const _ | new _ | newArray .. | newMultiArray .. | parameter .. | receiver _
  | caughtException _ | staticField _ => rfl
  | unary _ v | cast _ v => frees_events v
  | binary _ v w => by rw [events, Event.frees_append, frees_events v, frees_events w, spills]
  | instanceOf _ v | length v => by simp [events, spills, frees_events v]
  | field v _ => by simp [events, spills, frees_events v, Event.counts]
  | element v w => by
    rw [events, spills, Event.frees_append, Event.frees_append, frees_events v, frees_events w]
    cases v.spills idioms <;> cases w.spills idioms <;> simp [Event.counts]
  | call kind method base args => by
    rw [events, Call.frees_events, spills, Call.map, taints_traces args, taint?_trace? base]

/-- The operands of a list are tainted one by one. -/
theorem taints_traces : ∀ vs : List Value,
    (traces idioms vs).map (Trace.taints stores) = taints idioms vs
  | [] => rfl
  | v :: rest => by rw [traces, List.map_cons, taints, Trace.taints, frees_events v, taints_traces rest]

/-- An operand that may be absent is tainted as told. -/
theorem taint?_trace? : ∀ v : Option Value,
    (trace? idioms v).map (Trace.taints stores) = taint? idioms v
  | none => rfl
  | some v => by rw [trace?, Option.map_some, taint?, Trace.taints, frees_events v]

end

/-- What is stored in the heap leaks with the operands of the location. -/
theorem frees_writeEvents {place : Value} (hplace : place.isHeapLocation = true) (fresh : Bool) :
    Event.frees stores (place.writeEvents idioms fresh) = (fresh || place.spills idioms) := by
  cases place with
  | field v f =>
    rw [writeEvents, spills, Event.frees_append, frees_events]
    cases fresh <;> simp [Event.counts]
  | staticField f => simp [writeEvents, spills, Event.counts]
  | element v w =>
    rw [writeEvents, spills, Event.frees_append, Event.frees_append, frees_events, frees_events]
    cases fresh <;> cases v.spills idioms <;> cases w.spills idioms <;> simp [Event.counts]
  | _ => cases hplace

end Value

namespace Lower

/-- The expression of an operand contains a fresh reference exactly if the operand holds one, and the
statements for it do exactly if the operand spills one. -/
theorem operand_leaks (v : Value) {s : LoweringState} (hs : s.program.idioms = idioms) (hs' : s.Proper) :
    Yields (operand v) s fun out _ e _ => Spills (v.spills idioms) out ∧ e.allocates = v.holds := by
  subst hs
  exact ((operand_traces v).yields s (.refl s)).mono fun _ _ _ _ _ ⟨_, hwent, he⟩ =>
    ⟨.of_shows hwent.shows hs' fun _ => v.frees_events, he.allocates⟩

end Lower

end GuardedFlow
