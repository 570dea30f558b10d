import GuardedFlow.Proofs.Lowering.Events
import GuardedFlow.Proofs.Lowering.Refusals

/-!
# Lowering does what its events tell

One specification for each step of a lowering between two jumps: `Traces` states of a step that all its
statements, notes and failures are those of a list of events. The calculus follows the monad, and events of
steps one after another follow one another. `operand_traces` and `operation_traces` state it of operands of
any depth and of all operations that do not jump. All that is said elsewhere about the end of a path, the
effects, the calls, the notes, the failures and the fresh references of an instruction is read off these
events.

Events name no variables, tell no values, and do not tell that a step answers. The order in which
variables are set (`Acts`), the values (`Computes`), success (`Answers`) and the agreement of two
lowerings (`Alike`) have specifications of their own.
-/

namespace GuardedFlow

open Event (owned stored)

/-! ### What statements show -/

/-- The variables of a draft are no globals. -/
theorem LoweringState.Proper.role_ne_global {s : LoweringState} (h : s.Proper) {v : Var}
    (hv : v ∈ s.draft.variables) : v.role ≠ .global := by
  intro hrole
  simp only [Draft.variables, List.mem_append, Option.mem_toList, Array.mem_toList_iff] at hv
  rcases hv with ((((hv | hv) | hv) | hv) | hv) | hv
  · simp [(h.result v hv).1] at hrole
  · simp [(h.receiver v hv).1] at hrole
  · obtain ⟨⟨index, hindex⟩, -⟩ := h.params v hv
    simp [hindex] at hrole
  · simp [(h.locals v hv).1] at hrole
  · simp [(h.temps v hv).1] at hrole
  · simp [(h.exception v hv).1] at hrole

namespace LoweringState

/-- A variable that is no global, if the variables of the body are in order. -/
def Owns (s : LoweringState) (v : Var) : Prop := s.Proper → v.role ≠ .global

/-- An expression for an operand of the body: it contains a fresh reference as told, and touches no
global. -/
structure Lowered (s : LoweringState) (held : Bool) (e : Expr) : Prop where
  allocates : e.allocates = held
  isPrivate : s.Proper → e.Private

/-- Expressions for operands of the body, some of which contain a fresh reference as told. -/
structure LoweredAll (s : LoweringState) (held : Bool) (es : List Expr) : Prop where
  allocates : Expr.allocatesAny es = held
  isPrivate : s.Proper → ∀ e ∈ es, e.Private

/-- What the statements of a lowering show in a program: they are located at the instruction, and have the
effects, calls and fresh references of the events. -/
structure Shows (s : LoweringState) (p : Program) (location : Location) (events : List Event)
    (out : List Stmt) : Prop where
  located : ∀ stmt ∈ out, stmt.location = location
  enacts : s.Proper → Enacts p s.draft.body (Event.effects events) out
  resolved : out.filterMap Stmt.resolved? = Event.resolved events
  indirect : out.filterMap Stmt.indirect? = (Event.indirect events).map (location, ·)
  clean : Event.frees true events = false → ∀ stmt ∈ out, stmt.kind.allocates = false
  leaks : s.Proper → Event.frees false events = true → ∃ stmt ∈ out, stmt.kind.leaks = true

variable {s : LoweringState} {p q : Program} {location : Location} {events more : List Event}
  {out out' : List Stmt} {v : Var} {e e' : Expr} {held held' : Bool}

namespace Lowered

/-- A variable of the lowering. -/
theorem var (h : s.Owns v) : s.Lowered false (.var v) := ⟨rfl, fun hs => Expr.private_var (h hs)⟩

/-- A literal. -/
theorem lit (value : Literal) : s.Lowered false (.lit value) := ⟨rfl, fun _ => Expr.private_lit value⟩

/-- A type tag. -/
theorem tag (ty : Ty) : s.Lowered false (.tag ty) := .lit _

/-- A fresh reference. -/
theorem alloc (ty : Ty) : s.Lowered true (.alloc ty) := ⟨rfl, fun _ => Expr.private_alloc ty⟩

/-- A binary operation on two operands. -/
theorem binary {op : BinaryOp} (h : s.Lowered held e) (h' : s.Lowered held' e') :
    s.Lowered (held || held') (.binary op e e') where
  allocates := by rw [Expr.allocates, h.allocates, h'.allocates]
  isPrivate hs := Expr.private_binary (h.isPrivate hs) (h'.isPrivate hs)

end Lowered

namespace Shows

/-- No statements show no events. -/
theorem nil : s.Shows p location [] [] where
  located _ h := nomatch h
  enacts _ := .nil
  resolved := rfl
  indirect := rfl
  clean _ _ h := nomatch h
  leaks _ h := nomatch h

/-- A note needs no statement. -/
theorem note (n : Note) : s.Shows p location [.note n] [] :=
  ⟨nofun, fun _ => .nil, rfl, rfl, fun _ => nofun, fun _ h => by simp [Event.counts] at h⟩

/-- The end of the path needs no statement. -/
theorem finish (fin : PathEnd) : s.Shows p location [.finish fin] [] :=
  ⟨nofun, fun _ => .nil, rfl, rfl, fun _ => nofun, fun _ h => by simp [Event.counts] at h⟩

/-- A program that grows keeps what statements show. -/
theorem mono (h : s.Shows p location events out) (hpq : p.Grows q) : s.Shows q location events out :=
  { h with enacts := fun hs => (h.enacts hs).mono hpq }

/-- Statements one after another show events one after another. -/
theorem append (h : s.Shows p location events out) (h' : s.Shows p location more out') :
    s.Shows p location (events ++ more) (out ++ out') where
  located stmt hstmt := (List.mem_append.mp hstmt).elim (h.located stmt) (h'.located stmt)
  enacts hs := by
    rw [Event.effects_append]
    exact (h.enacts hs).append (h'.enacts hs)
  resolved := by rw [List.filterMap_append, h.resolved, h'.resolved, Event.resolved_append]
  indirect := by
    rw [List.filterMap_append, h.indirect, h'.indirect, Event.indirect_append, List.map_append]
  clean hfrees stmt hstmt := by
    rw [Event.frees_append, Bool.or_eq_false_iff] at hfrees
    exact (List.mem_append.mp hstmt).elim (h.clean hfrees.1 stmt) (h'.clean hfrees.2 stmt)
  leaks hs hfrees := by
    rw [Event.frees_append, Bool.or_eq_true] at hfrees
    rcases hfrees with hfrees | hfrees
    · obtain ⟨stmt, hstmt, hleaks⟩ := h.leaks hs hfrees
      exact ⟨stmt, List.mem_append_left _ hstmt, hleaks⟩
    · obtain ⟨stmt, hstmt, hleaks⟩ := h'.leaks hs hfrees
      exact ⟨stmt, List.mem_append_right _ hstmt, hleaks⟩

variable {kind : StmtKind} {target value : Expr}

/-- What a single statement shows. A fresh reference leaks in it unless it is the whole value of a local. -/
theorem stmt (henacts : s.Proper → Enacts p s.draft.body (Event.effects events) [⟨location, kind⟩])
    (hresolved : [⟨location, kind⟩].filterMap Stmt.resolved? = Event.resolved events)
    (hindirect : [⟨location, kind⟩].filterMap Stmt.indirect? = (Event.indirect events).map (location, ·))
    (hallocates : kind.allocates = Event.frees true events)
    (hfresh : s.Proper → Event.frees false events = true → kind.fresh? = none) :
    s.Shows p location events [⟨location, kind⟩] where
  located stmt hstmt := by rw [List.mem_singleton.mp hstmt]
  enacts := henacts
  resolved := hresolved
  indirect := hindirect
  clean hfrees stmt hstmt := by
    rw [List.mem_singleton.mp hstmt]
    exact hallocates.trans hfrees
  leaks hs hfrees := by
    refine ⟨_, List.mem_singleton_self _, ?_⟩
    rw [StmtKind.leaks, hallocates, Event.frees_of_frees hfrees, hfresh hs hfrees]
    rfl

/-- A statement that lowering adds on its own, other than a call. -/
theorem own {fresh : Bool} (hresolved : (⟨location, kind⟩ : Stmt).resolved? = none)
    (hindirect : (⟨location, kind⟩ : Stmt).indirect? = none) (hinternal : s.Proper → kind.Internal p)
    (hallocates : kind.allocates = fresh) (hfresh : s.Proper → kind.fresh? = none) :
    s.Shows p location (owned fresh) [⟨location, kind⟩] :=
  .stmt (fun hs => by simpa using Enacts.internal (hinternal hs)) (by simp [hresolved])
    (by simp [hindirect]) (by simp [hallocates]) fun hs _ => hfresh hs

/-- A variable is set to the value of an operand. -/
theorem store (hdest : s.Owns v) (hvalue : s.Lowered held value) :
    s.Shows p location (stored held) [⟨location, .assign (.var v) value⟩] :=
  .stmt (fun hs => by simpa using Enacts.internal (StmtKind.internal_assign (hdest hs) (hvalue.isPrivate hs)))
    (by simp; rfl) (by simp; rfl) (by simp [StmtKind.allocates, Expr.allocates, hvalue.allocates])
    fun _ hfrees => by simp at hfrees

end Shows

end LoweringState

namespace Lower

variable {α β : Type} {s : LoweringState}

/-! ### The calculus -/

/-- A run from `t` to `u`, in a lowering that stood at `s` before, has told the notes of the events and
appended statements that show them. Where indirect calls are refused, there were none. -/
structure Went (s t : LoweringState) (events : List Event) (out : List Stmt) (u : LoweringState) : Prop where
  told : t.Told (Event.notes events) u
  strict : t.program.config.strictUnsupported = true → (Event.notes events).filterMap Note.indirect? = []
  shows : s.Shows u.program t.draft.location events out

/-- Runs follow one another. -/
theorem Went.trans {t u w : LoweringState} {events more : List Event} {out out' : List Stmt}
    {fin fin' : Option PathEnd} (h : Went s t events out u) (htu : Emits t out fin u)
    (h' : Went s u more out' w) (huw : Emits u out' fin' w) : Went s t (events ++ more) (out ++ out') w where
  told := by
    rw [Event.notes_append]
    exact h.told.trans htu h'.told
  strict hstrict := by
    rw [Event.notes_append, List.filterMap_append, h.strict hstrict,
      h'.strict (htu.program.config ▸ hstrict), List.append_nil]
  shows := (h.shows.mono huw.program).append (htu.location ▸ h'.shows)

/-- From `s` on, every answer of `m` has a property and comes after all the events. A failure comes after a
first part of them, and refuses the instruction unless that part ended the path. Either way, the program is
changed by requests only. -/
structure Traces (s : LoweringState) (m : Lower α) (events : List Event) (P : α → Prop) : Prop where
  yields : ∀ t, Continues s t → Yields m t fun out fin a u =>
    fin = Event.pathEnd events ∧ Went s t events out u ∧ P a
  fails : ∀ t e u, Continues s t → m t = .error e u → ∃ done, done <+: events ∧
    t.Told (Event.notes done) u ∧ (t.Ready → t.Refuses (Event.pathEnd done).isSome e)
  requests : ∀ t, Continues s t → t.program.Requested (stateAfter (m t)).program

/-- The lowering of an operand with a trace. -/
def Evaluates (s : LoweringState) (m : Lower Expr) (trace : Trace) : Prop :=
  Traces s m trace.events (s.Lowered trace.held)

namespace Traces

variable {m : Lower α} {f : α → Lower β} {events more : List Event} {P : α → Prop} {R : β → Prop}

/-- A quiet step that fails only where a check refuses the instruction, a block is missing or a global has
another type. -/
theorem of_quiet (hm : Quiet m) (hnotes : Event.notes events = [])
    (hrefuses : ∀ t e u, t.Ready → m t = .error e u → t.Refuses false e)
    (hyields : ∀ t, Continues s t → Yields m t fun out fin a u => fin = Event.pathEnd events ∧
      s.Shows u.program t.draft.location events out ∧ P a) : Traces s m events P where
  yields t ht :=
    { ok := fun a u hrun => by
        obtain ⟨out, fin, hemits, hfin, hshows, ha⟩ := (hyields t ht).ok a u hrun
        exact ⟨out, fin, hemits, hfin, ⟨hnotes ▸ hm.told_ok hrun, fun _ => by rw [hnotes]; rfl, hshows⟩, ha⟩
      error := (hyields t ht).error }
  fails t e u _ hrun :=
    ⟨[], List.nil_prefix, hm.told_error hrun, fun hready => hrefuses t e u hready hrun⟩
  requests t _ := (hm t).requests

/-- A quiet step without statements that always answers. -/
theorem of_silent (hm : Quiet m) (hok : ∀ t, ∃ a u, m t = .ok a u)
    (h : ∀ t, Continues s t → Yields m t fun out fin a _ => out = [] ∧ fin = none ∧ P a) :
    Traces s m [] P :=
  .of_quiet hm rfl
    (fun t e u _ hrun => by
      obtain ⟨a, w, hanswer⟩ := hok t
      rw [hanswer] at hrun
      cases hrun)
    fun t ht => (h t ht).mono fun _ _ _ _ _ ⟨hout, hfin, ha⟩ => ⟨hfin, hout ▸ .nil, ha⟩

/-- An answer has no events. -/
theorem pure {a : α} (h : P a) : Traces s (pure a) [] P :=
  .of_silent (.pure a) (fun t => ⟨a, t, rfl⟩) fun _ _ => .pure ⟨rfl, rfl, h⟩

/-- A step that always fails does nothing. -/
theorem fail (fault : Fault) (h : fault.isRefusal = true) : Traces s (fail fault : Lower α) events P where
  yields _ _ := .fail (Fault.isConflict_of_isRefusal h)
  fails t e u _ hrun := by
    cases hrun
    exact ⟨[], List.nil_prefix, .of_eq rfl rfl, fun _ => .refusal fault h⟩
  requests _ _ := .refl

/-- Steps one after another do their events one after another. -/
theorem bind (hm : Traces s m events P) (hf : ∀ a, P a → Traces s (f a) more R) :
    Traces s (m >>= f) (events ++ more) R where
  yields t ht := (hm.yields t ht).bind fun out _ a u htu ⟨hfin, hwent, ha⟩ =>
    ((hf a ha).yields u (ht.trans htu.toContinues)).mono fun _ _ _ _ huw ⟨hfin', hwent', hb⟩ =>
      ⟨by rw [hfin, hfin', Event.pathEnd_append], hwent.trans htu hwent' huw, hb⟩
  fails t e w ht hrun := by
    rcases bind_error hrun with hrun | ⟨a, u, hrun, hrest⟩
    · obtain ⟨done, hpart, htold, hrefuses⟩ := hm.fails t e w ht hrun
      exact ⟨done, hpart.trans (List.prefix_append _ _), htold, hrefuses⟩
    · obtain ⟨out, fin, htu, rfl, hwent, ha⟩ := (hm.yields t ht).ok a u hrun
      obtain ⟨done, hpart, htold, hrefuses⟩ := (hf a ha).fails u e w (ht.trans htu.toContinues) hrest
      refine ⟨events ++ done, (List.prefix_append_right_inj events).mpr hpart, ?_, fun hready => ?_⟩
      · rw [Event.notes_append]
        exact hwent.told.trans htu htold
      · rw [Event.pathEnd_append, Option.isSome_or]
        exact (hrefuses (htu.ready hready)).after htu
  requests t ht := by
    have hfirst := hm.requests t ht
    rw [bind_run]
    cases hrun : m t with
    | error e u =>
      rw [hrun] at hfirst
      exact hfirst
    | ok a u =>
      rw [hrun] at hfirst
      obtain ⟨out, fin, htu, -, -, ha⟩ := (hm.yields t ht).ok a u hrun
      exact hfirst.trans ((hf a ha).requests u (ht.trans htu.toContinues))

/-- A step without events, in front of another one. -/
theorem andThen (hm : Traces s m [] P) (hf : ∀ a, P a → Traces s (f a) events R) :
    Traces s (m >>= f) events R := hm.bind hf

/-- A step with events, in front of one without. -/
theorem before (hm : Traces s m events P) (hf : ∀ a, P a → Traces s (f a) [] R) :
    Traces s (m >>= f) events R := by
  simpa using hm.bind hf

/-- A step that only reads the state hands what it has read to the next one. -/
theorem read_bind {read : LoweringState → α} (hread : ∀ t, m t = .ok (read t) t)
    (h : ∀ t, Continues s t → Traces s (f (read t)) events R) : Traces s (m >>= f) events R where
  yields t ht := .read_bind (hread t) ((h t ht).yields t ht)
  fails t e u ht hrun := by
    rw [bind_run, hread] at hrun
    exact (h t ht).fails t e u ht hrun
  requests t ht := by
    rw [bind_run, hread]
    exact (h t ht).requests t ht

/-- A step that asks for the draft. -/
theorem draft {f : Draft → Lower β} (h : ∀ t, Continues s t → Traces s (f t.draft) events R) :
    Traces s (Lower.draft >>= f) events R := .read_bind (fun _ => rfl) h

/-- A step that asks for the program. -/
theorem program {f : Program → Lower β} (h : ∀ t, Continues s t → Traces s (f t.program) events R) :
    Traces s (Lower.program >>= f) events R := .read_bind (fun _ => rfl) h

/-! Primitive steps. -/

/-- A fresh temporary has no events. -/
theorem freshTemp (stem : String) (ty : Ty) : Traces s (freshTemp stem ty) [] s.Owns :=
  .of_silent (.freshTemp stem ty) (fun _ => ⟨_, _, rfl⟩) fun _ _ =>
    yields_freshTemp fun _ _ hv _ => ⟨rfl, rfl, fun _ => by simp [hv]⟩

/-- The caught exception has no events. -/
theorem caughtException (ty : Ty) : Traces s (caughtException ty) [] s.Owns :=
  .of_silent (.caughtException ty) (fun _ => ⟨_, _, rfl⟩) fun _ ht => yields_caughtException
    (fun v hv => ⟨rfl, rfl, fun hs => by simp [((ht.proper hs).exception v hv).1]⟩)
    fun _ _ _ hv _ => ⟨rfl, rfl, fun _ => by simp [hv]⟩

/-- An array class stays what it was when the lowering began. -/
theorem arrayClass (element : Ty) :
    Traces s (arrayClass element) [] fun a => a = (s.program.arrayClass element).1 :=
  .of_silent (.arrayClass element) (fun _ => ⟨_, _, rfl⟩) fun _ ht =>
    yields_arrayClass ⟨rfl, rfl, ht.program.arrays element⟩

/-- Marking the use of monitors has no events. -/
theorem usesMonitors : Traces s
    (modify fun s : LoweringState => { s with draft := { s.draft with usesMonitors := true } }) []
    fun _ => True :=
  .of_silent .usesMonitors (fun _ => ⟨_, _, rfl⟩) fun _ _ => yields_usesMonitors ⟨rfl, rfl, trivial⟩

/-- An exit of the process ends the path without a successor. -/
theorem halt : Traces s (setOpen none) [.finish .halt] fun _ => True :=
  .of_quiet (.setOpen none) rfl (fun _ _ _ _ hrun => nomatch hrun) fun _ _ =>
    yields_halt ⟨rfl, .finish .halt, trivial⟩

/-- A return ends the path at the sink. -/
theorem returnVoid : Traces s returnVoid [.finish .leave] fun _ => True :=
  .of_quiet .returnVoid rfl (fun _ _ _ => returnVoid_refuses) fun _ _ => yields_returnVoid fun _ _ =>
    ⟨rfl, .finish .leave, trivial⟩

/-- A statement about the current instruction. -/
theorem emitHere {kind : StmtKind} (hnotes : Event.notes events = []) (hfin : Event.pathEnd events = none)
    (h : ∀ p location, s.Shows p location events [⟨location, kind⟩]) :
    Traces s (emitHere kind) events fun _ => True :=
  .of_quiet (.emitHere kind) hnotes (fun _ _ _ => emitHere_refuses) fun _ _ => yields_emitHere fun _ _ =>
    ⟨hfin.symm, h _ _, trivial⟩

/-- A statement that lowering adds on its own. -/
theorem emitOwn {kind : StmtKind} {fresh : Bool}
    (h : ∀ p location, s.Shows p location (owned fresh) [⟨location, kind⟩]) :
    Traces s (Lower.emitHere kind) (owned fresh) fun _ => True := .emitHere (by simp) (by simp) h

/-- An access appends its statement, on a global that depends on the program only. -/
theorem access {session : Location → Session Stmt} (name : Program → String) (ty : Program → Ty)
    (answer : Var → StmtKind) (hsession : ∀ location p, session location p =
      (do return (⟨location, answer (← Session.global (name p) (ty p))⟩ : Stmt)) p)
    (hnotes : Event.notes events = []) (hfin : Event.pathEnd events = none)
    (h : ∀ p q v location, s.program.Grows p → p.Grows q → q.globals.lookup (name p) = some v →
      s.Shows q location events [⟨location, answer v⟩]) :
    Traces s (do emit (← request (session (← location)))) events fun _ => True := by
  refine .of_quiet (.access name ty answer hsession) hnotes
    (fun _ _ _ => access_refuses name ty answer hsession) fun t ht => ?_
  have haccess : Yields (do emit (← request (session (← location)))) t fun out fin _ u => fin = none ∧
      ∃ v, u.program.globals.lookup (name t.program) = some v ∧ out = [⟨t.draft.location, answer v⟩] :=
    yields_access (name t.program) (ty t.program) answer (hsession · t.program) fun v _ hv _ =>
      ⟨rfl, v, hv, rfl⟩
  refine haccess.mono fun _ _ _ u htu hout => ?_
  obtain ⟨rfl, v, hv, rfl⟩ := hout
  exact ⟨hfin.symm, h t.program u.program v _ ht.program htu.program hv, trivial⟩

/-- A report of the finding of a note. -/
theorem report {severity : Severity} {category : Category} {message : String} {note : Note}
    (hfinding : ∀ method location, note.finding? method location = some
      { severity, category, message, method := some method.text, location := some location })
    (hstrict : s.program.config.strictUnsupported = true → note.indirect? = none) :
    Traces s (report severity category message) [.note note] fun _ => True where
  yields t ht := by
    refine .of_ok rfl (.of_continues (.of_grows (t.program.grows_report _) rfl) rfl rfl rfl rfl)
      ⟨rfl, ⟨⟨?_, fun m hm => .inl hm⟩, fun hstrict' => ?_, .note note⟩, trivial⟩
    · change (t.program.log.push _).toList = _
      simp [Log.push, Log.toList, Event.note?, hfinding]
    · simp [Event.note?, hstrict (ht.program.config ▸ hstrict')]
  fails t e u _ hrun := nomatch hrun
  requests t _ := .single (.report t.program _)

end Traces

/-- A given expression, as an operand. -/
theorem Evaluates.pure {e : Expr} {held : Bool} (h : s.Lowered held e) : Evaluates s (pure e) ⟨[], held⟩ :=
  Traces.pure h

end Lower

end GuardedFlow
