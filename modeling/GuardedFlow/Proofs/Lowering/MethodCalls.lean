import Mathlib.Data.List.Perm.Subperm
import GuardedFlow.Proofs.Lowering.Failures

/-!
# Which methods are called

A call of a method of the program is appended for a call in an operand that is not indirect and that the
table of idioms has no entry for. `Op.resolved_events` states this of the events of an instruction: they
call no more methods than there are unmatched calls among its call sites, each with its own signature, and
with a result exactly where the table was told that it is used.
-/

namespace GuardedFlow

/-! ### Unmatched calls -/

namespace CallSite

variable {idioms : List Idiom} {sites more : List CallSite}

/-- The calls among the given ones that no idiom matches: the signature, and whether the result is used. -/
def unmatched (idioms : List Idiom) (sites : List CallSite) : List (String × Bool) :=
  (sites.filter fun site => (Idiom.lookup idioms site).isNone).map fun site =>
    (site.method.text, site.hasResult)

/-- The unmatched calls of sites one after another. -/
theorem unmatched_append :
    unmatched idioms (sites ++ more) = unmatched idioms sites ++ unmatched idioms more := by
  rw [unmatched, List.filter_append, List.map_append]
  rfl

/-- A single call that no idiom matches. -/
theorem unmatched_singleton {site : CallSite} (h : Idiom.lookup idioms site = none) :
    unmatched idioms [site] = [(site.method.text, site.hasResult)] := by
  rw [unmatched, List.filter_cons_of_pos (by rw [h]; rfl), List.filter_nil, List.map_singleton]

/-- An unmatched call is one of the sites, and the table has no answer for it. -/
theorem mem_unmatched {call : String × Bool} : call ∈ unmatched idioms sites ↔
    ∃ site ∈ sites, Idiom.lookup idioms site = none ∧ (site.method.text, site.hasResult) = call := by
  simp only [unmatched, List.mem_map, List.mem_filter, Option.isNone_iff_eq_none, and_assoc]

end CallSite

/-- The call sites of a call, when those of its operands are known. -/
def Call.callSites (call : Call (List CallSite)) (hasResult : Bool) : List CallSite :=
  CallSite.of call.kind call.method hasResult ++ call.base.getD [] ++ call.args.flatten

namespace Value

/-- The call sites of an operand that may be absent. -/
theorem callSites?_eq (v : Option Value) : callSites? v = (v.map callSites).getD [] := by
  cases v <;> rfl

/-- The call sites of the operands of a list. -/
theorem callSitesOf_eq (vs : List Value) : callSitesOf vs = (vs.map callSites).flatten := by
  induction vs with
  | nil => rfl
  | cons v rest ih => rw [callSitesOf, ih, List.map_cons, List.flatten_cons]

end Value

/-- The call sites of a call of operands are its own and those of the operands. -/
theorem Call.callSites_map (call : Call Value) (hasResult : Bool) :
    (call.map Value.callSites).callSites hasResult = CallSite.of call.kind call.method hasResult ++
      Value.callSites? call.base ++ Value.callSitesOf call.args := by
  rw [Value.callSites?_eq, Value.callSitesOf_eq]
  rfl

/-! ### The calls among the events -/

open CallSite (unmatched unmatched_append unmatched_singleton)

variable {idioms : List Idiom}

/-- The calls of methods in a trace have different unmatched calls among the sites. -/
def Trace.Calls (idioms : List Idiom) (trace : Trace) (sites : List CallSite) : Prop :=
  (Event.resolved trace.events).Subperm (unmatched idioms sites)

namespace Trace.Calls

/-- Operands that are evaluated one after another. -/
theorem all {traces : List Trace} {sites : List (List CallSite)}
    (h : List.Forall₂ (Calls idioms) traces sites) : (Trace.all traces).Calls idioms sites.flatten := by
  induction h with
  | nil => exact .refl _
  | @cons trace first traces rest htrace _ ih =>
    have hall : (Trace.all (trace :: traces)).events = trace.events ++ (Trace.all traces).events := rfl
    rw [Calls, hall, Event.resolved_append, List.flatten_cons, unmatched_append]
    exact htrace.append ih

/-- An operand that may be absent. -/
theorem orEmpty {trace : Option Trace} {sites : Option (List CallSite)}
    (h : Option.Rel (Calls idioms) trace sites) : (Trace.orEmpty trace).Calls idioms (sites.getD []) := by
  cases h with
  | none => exact .refl _
  | some h => exact h

end Trace.Calls

/-- A matched call makes calls only in its operands. -/
theorem IdiomKind.resolved_events (method : MethodSig) (base arg : Trace) (hasResult : Bool)
    (kind : IdiomKind) : (Event.resolved (kind.events method base arg hasResult)).Sublist
      (Event.resolved base.events ++ Event.resolved arg.events) := by
  cases kind <;> cases hasResult <;> simp [events, Event.resolved?]

/-- A call makes the calls of its operands, and one more unless an idiom matches it or it is an indirect
one. -/
theorem Call.resolved_events {call : Call Trace} {source : Call (List CallSite)}
    (h : call.Rel (Trace.Calls idioms) source) (hasResult : Bool) :
    (Event.resolved (call.events idioms hasResult)).Subperm
      (unmatched idioms (source.callSites hasResult)) := by
  have hargs : (Event.resolved (Trace.all call.args).events).Subperm _ := Trace.Calls.all h.args
  have hbase : (Event.resolved (Trace.orEmpty call.base).events).Subperm _ := Trace.Calls.orEmpty h.base
  have hoperands := hbase.append hargs
  unfold Call.events Call.callSites
  rw [← h.kind, ← h.method, List.append_assoc, unmatched_append, unmatched_append]
  by_cases hkind : call.kind = .dynamic
  · simp only [hkind, if_true, CallSite.of, Event.resolved_cons, Event.resolved_append]
    simpa [Event.resolved?, unmatched] using List.perm_append_comm.subperm.trans hoperands
  · simp only [hkind, if_false, CallSite.of]
    cases hlookup : Idiom.lookup idioms ⟨call.method, hasResult⟩ with
    | some kind =>
      exact (kind.resolved_events ..).subperm.trans (hoperands.trans (List.sublist_append_right _ _).subperm)
    | none =>
      have hall : (Event.resolved (Trace.all call.args).events ++ Event.resolved
          (if call.kind.hasReceiver then Trace.orEmpty call.base else .empty).events).Subperm
          (unmatched idioms (source.base.getD []) ++ unmatched idioms source.args.flatten) := by
        refine List.perm_append_comm.subperm.trans ?_
        split
        · exact hoperands
        · exact hargs.trans (List.sublist_append_right _ _).subperm
      rw [unmatched_singleton hlookup]
      simpa [Event.resolved?, hkind] using
        (List.perm_append_singleton _ _).subperm.trans ((List.subperm_cons _).mpr hall)

namespace Value

mutual

/-- An operand calls no more methods than there are unmatched calls in it. -/
theorem resolved_events : ∀ v : Value, (v.trace idioms).Calls idioms v.callSites
  | slot _ | const _ | new _ | parameter .. | receiver _ | caughtException _ | staticField _ => .refl _
  | newArray .. | newMultiArray .. => List.nil_subperm
  | unary _ v | cast _ v => resolved_events v
  | instanceOf _ v | length v => by simpa [Trace.Calls, trace, events, callSites] using resolved_events v
  | binary _ v w => by
    rw [Trace.Calls, trace, events, Event.resolved_append, callSites, unmatched_append]
    exact (resolved_events v).append (resolved_events w)
  | field v _ => by
    simpa [Trace.Calls, trace, events, callSites, Event.resolved?] using resolved_events v
  | element v w => by
    have hv : (Event.resolved (v.events idioms)).Subperm (unmatched idioms v.callSites) := resolved_events v
    have hw : (Event.resolved (w.events idioms)).Subperm (unmatched idioms w.callSites) := resolved_events w
    rw [Trace.Calls, callSites, unmatched_append]
    simpa [trace, events, Event.resolved?] using hv.append hw
  | call kind method base args => by
    rw [callSites, ← Call.callSites_map ⟨kind, method, base, args⟩]
    exact Call.resolved_events ⟨rfl, rfl, trace?_calls base, traces_calls args⟩ true

/-- The operands of a list, one by one. -/
theorem traces_calls : ∀ vs : List Value,
    List.Forall₂ (Trace.Calls idioms) (traces idioms vs) (vs.map callSites)
  | [] => .nil
  | v :: rest => .cons (resolved_events v) (traces_calls rest)

/-- An operand that may be absent. -/
theorem trace?_calls : ∀ v : Option Value,
    Option.Rel (Trace.Calls idioms) (trace? idioms v) (v.map callSites)
  | none => .none
  | some v => .some (resolved_events v)

end

variable (v : Value)

/-- Storing a value calls no more methods than there are unmatched calls in the place. -/
theorem resolved_writeEvents (fresh : Bool) :
    (Event.resolved (v.writeEvents idioms fresh)).Subperm (unmatched idioms v.callSites) := by
  have hv (v : Value) : (Event.resolved (v.events idioms)).Subperm (unmatched idioms v.callSites) :=
    v.resolved_events
  cases v with
  | field v f => simpa [writeEvents, callSites, Event.resolved?] using hv v
  | element v w =>
    rw [callSites, unmatched_append]
    simpa [writeEvents, Event.resolved?] using (hv v).append (hv w)
  | _ => exact List.nil_subperm

/-- Assigning an operand to a local calls no more methods than there are unmatched calls in the operand. -/
theorem resolved_assignEvents :
    (Event.resolved (v.assignEvents idioms)).Subperm (unmatched idioms v.callSites) := by
  have hv (v : Value) : (Event.resolved (v.events idioms)).Subperm (unmatched idioms v.callSites) :=
    v.resolved_events
  cases v with
  | field | staticField | element | length | call => exact hv _
  | newArray ty size => simpa [assignEvents, callSites] using hv size
  | _ => simpa [assignEvents] using hv _

end Value

/-- An operation calls no more methods than there are unmatched calls in it. -/
theorem Op.resolved_events (idioms : List Idiom) (op : Op Nat) :
    (Event.resolved (op.events idioms)).Subperm (unmatched idioms op.callSites) := by
  have hvalue (v : Value) : (Event.resolved (v.events idioms)).Subperm (unmatched idioms v.callSites) :=
    v.resolved_events
  cases op with
  | assign place source =>
    rw [events, callSites, unmatched_append]
    split
    · rw [Event.resolved_append]
      exact List.perm_append_comm.subperm.trans ((place.resolved_writeEvents _).append (hvalue source))
    · exact source.resolved_assignEvents.trans (List.sublist_append_right _ _).subperm
  | identity _ v | ret v | monitorEnter v | monitorExit v =>
    simpa [events, callSites, Event.resolved?] using hvalue v
  | branch v _ => exact hvalue v
  | invoke call =>
    rw [callSites, ← Call.callSites_map]
    exact Call.resolved_events ⟨rfl, rfl, Value.trace?_calls .., Value.traces_calls ..⟩ false
  | tableSwitch | lookupSwitch | throw | goto | retVoid | nop | breakpoint | subroutineReturn =>
    exact List.nil_subperm

end GuardedFlow
