import Mathlib.Data.List.Forall2
import Mathlib.Data.Option.Basic
import GuardedFlow.Proofs.Lowering.Ready

/-!
# What a step refuses

A lowering that stays between two jumps fails for one of three reasons. A check refuses the current
instruction; a block is needed where none is open, because a call ended the path on the way; or a global was
requested under another type than it has. `LoweringState.Refuses` states this of a failure, up to whether the
path may have ended. Calls are checked where their operands are put together, so the two checks of a call are
here as well.
-/

namespace GuardedFlow

/-! ### Calls and their operands -/

/-- Two calls of the same kind and method whose operands are related one by one. -/
structure Call.Rel {α β : Type} (R : α → β → Prop) (c : Call α) (d : Call β) : Prop where
  kind : c.kind = d.kind
  method : c.method = d.method
  base : Option.Rel R c.base d.base
  args : List.Forall₂ R c.args d.args

/-- Whether an idiom computes an answer from types. -/
def IdiomKind.isQuery : IdiomKind → Bool
  | isAssignableFrom | getClass | cast | isInstance => true
  | _ => false

/-- The table of idioms matches queries only where their answer is used. -/
theorem Idiom.hasResult_of_lookup {config : Config} {site : CallSite} {kind : IdiomKind}
    (h : lookup (table config) site = some kind) (hquery : kind.isQuery = true) :
    site.hasResult = true := by
  obtain ⟨idiom, hfind, rfl⟩ := Option.map_eq_some_iff.mp h
  have happlies := List.find?_some hfind
  have hmem := List.mem_of_find?_eq_some hfind
  have hrequires : idiom.requiresResult = true := by
    simp only [table, List.mem_cons, List.not_mem_nil, or_false] at hmem
    rcases hmem with rfl | rfl | rfl | rfl | rfl | rfl | rfl | rfl | rfl <;> first | rfl | cases hquery
  simp only [applies, hrequires, Bool.not_true, Bool.or_false, Bool.and_eq_true] at happlies
  exact happlies.1

/-! ### Refusals -/

/-- Whether a cause is a property of the instruction that is refused. The other causes are about blocks
and edges, about globals, or contradict how lowering chooses its steps. -/
def Fault.isRefusal : Fault → Bool
  | noOpenBlock | duplicateEdge .. | notHeapLocation _ | queryWithoutResult | globalConflict .. => false
  | _ => true

/-- A refusal is no conflict between the types of a global. -/
theorem Fault.isConflict_of_isRefusal {fault : Fault} (h : fault.isRefusal = true) :
    fault.isConflict = false := by
  cases fault <;> first | rfl | cases h

namespace Call.Rel

variable {ι : Type} {R : Lower Expr → ι → Prop} {call : Call (Lower Expr)} {d : Call ι}

/-- A call without a receiver is refused where one is needed. -/
theorem receiver (h : call.Rel R d) (hfail : ∀ fault a, fault.isRefusal = true → R (Lower.fail fault) a)
    (missing : ι) : R (Lower.receiver call) (d.base.getD missing) := by
  have hbase := h.base
  unfold Lower.receiver
  cases hcall : call.base with
  | none => exact hfail _ _ rfl
  | some base =>
    rw [hcall] at hbase
    cases hd : d.base with
    | none => simp [hd] at hbase
    | some a =>
      rw [hd] at hbase
      cases hbase
      assumption

/-- A call with another number of arguments is refused where one is needed. -/
theorem onlyArgument (h : call.Rel R d)
    (hfail : ∀ fault a, fault.isRefusal = true → R (Lower.fail fault) a) (combine : List ι → ι)
    (hone : ∀ a, combine [a] = a) : R (Lower.onlyArgument call) (combine d.args) := by
  have hargs := h.args
  unfold Lower.onlyArgument
  rcases hcall : call.args with _ | ⟨arg, _ | ⟨next, rest⟩⟩
  · exact hfail _ _ rfl
  · rw [hcall] at hargs
    cases hd : d.args with
    | nil => simp [hd] at hargs
    | cons a rest =>
      rw [hd] at hargs
      cases hargs with
      | cons harg hnil =>
        cases hnil
        rw [hone]
        exact harg
  · exact hfail _ _ rfl

end Call.Rel

/-- The failures of a step from a state: the current instruction is refused, a block is needed although
none was open or the path has ended, or a global was requested under another type than it has. -/
inductive LoweringState.Refuses (s : LoweringState) (ended : Bool) : Error → Prop where
  | refusal (fault : Fault) (h : fault.isRefusal = true) : s.Refuses ended (.lowering fault s.draft.site)
  | closed (h : s.openBlock = none ∨ ended = true) : s.Refuses ended (.lowering .noOpenBlock s.draft.site)
  | conflict (name : String) (requested declared : Ty) :
      s.Refuses ended (.lowering (.globalConflict name requested declared) .outside)

namespace LoweringState.Refuses

variable {s t : LoweringState} {ended ended' : Bool} {e : Error}

/-- A path that may have ended has ended, or not. -/
theorem mono (h : s.Refuses ended e) (hle : ended = true → ended' = true) : s.Refuses ended' e := by
  cases h with
  | refusal fault h => exact .refusal fault h
  | closed h => exact .closed (h.imp_right hle)
  | conflict name requested declared => exact .conflict name requested declared

/-- A failure after statements were appended is one of the state before, where the path may have ended
with them. -/
theorem after {out : List Stmt} {fin : Option PathEnd} (h : t.Refuses ended e) (hst : Emits s out fin t) :
    s.Refuses (fin.isSome || ended) e := by
  have hsite := hst.site
  cases h with
  | refusal fault h => exact hsite ▸ .refusal fault h
  | closed h =>
    rw [hsite]
    refine .closed ?_
    rcases h with h | h
    · rw [hst.openBlock] at h
      cases fin with
      | none => exact .inl h
      | some fin => exact .inr rfl
    · right
      rw [h, Bool.or_true]
  | conflict name requested declared => exact .conflict name requested declared

end LoweringState.Refuses

namespace Lower

variable {s t : LoweringState} {e : Error}

/-- A statement is refused only if no block is open. -/
theorem emit_refuses {stmt : Stmt} (hs : s.Ready) (hrun : emit stmt s = .error e t) : s.Refuses false e := by
  change (currentBlock >>= fun block => edit (·.append block stmt)) s = _ at hrun
  rw [bind_run, currentBlock_run] at hrun
  cases hopen : s.openBlock with
  | none =>
    rw [hopen] at hrun
    cases hrun
    exact .closed (.inl hopen)
  | some block =>
    have hnode : s.draft.graph.hasNode block = true := decide_eq_true (hs.openBlock block hopen).1
    rw [hopen] at hrun
    dsimp only at hrun
    rw [append_run, if_pos hnode] at hrun
    cases hrun

/-- A statement about the current instruction is refused only if no block is open. -/
theorem emitHere_refuses {kind : StmtKind} (hs : s.Ready) (hrun : emitHere kind s = .error e t) :
    s.Refuses false e := by
  have hemit : emit ⟨s.draft.location, kind⟩ s = .error e t := hrun
  exact emit_refuses hs hemit

/-- A return is refused only if no block is open. -/
theorem returnVoid_refuses (hs : s.Ready) (hrun : returnVoid s = .error e t) : s.Refuses false e := by
  cases hopen : s.openBlock with
  | none =>
    rw [returnVoid_run, hopen] at hrun
    cases hrun
    exact .closed (.inl hopen)
  | some block =>
    obtain ⟨u, hok⟩ := returnVoid_ready hs hopen
    rw [hok] at hrun
    cases hrun

/-- A request that comes down to one global is refused if the global has another type. -/
theorem request_refuses {α : Type} {session : Session α} (name : Program → String) (ty : Program → Ty)
    (answer : Var → α) (h : ∀ p, session p = (do return answer (← Session.global (name p) (ty p))) p)
    (hrun : request session s = .error e t) : s.Refuses false e := by
  rw [request_run, h, bind_run] at hrun
  cases hglobal : Session.global (name s.program) (ty s.program) s.program with
  | error e' p =>
    obtain ⟨rfl, v, -, -, rfl⟩ := Session.global_error hglobal
    rw [hglobal] at hrun
    cases hrun
    exact .conflict _ _ _
  | ok v p =>
    rw [hglobal] at hrun
    cases hrun

/-- An access is refused as its request and its statement are. -/
theorem access_refuses {session : Location → Session Stmt} (name : Program → String) (ty : Program → Ty)
    (answer : Var → StmtKind) (h : ∀ location p, session location p =
      (do return (⟨location, answer (← Session.global (name p) (ty p))⟩ : Stmt)) p) (hs : s.Ready)
    (hrun : (do emit (← request (session (← location)))) s = .error e t) : s.Refuses false e := by
  have hsession := h s.draft.location
  change (request (session s.draft.location) >>= emit) s = _ at hrun
  rcases bind_error hrun with hrun | ⟨stmt, u, hrequest, hrun⟩
  · exact request_refuses name ty (fun v => ⟨s.draft.location, answer v⟩) hsession hrun
  · have hrequested : Yields (request (session s.draft.location)) s fun out fin _ _ => out = [] ∧ fin = none :=
      yields_global (name s.program) (ty s.program) (fun v => ⟨s.draft.location, answer v⟩)
        (hsession s.program) fun _ _ _ _ _ => ⟨rfl, rfl⟩
    obtain ⟨_, _, hsu, rfl, rfl⟩ := hrequested.ok stmt u hrequest
    exact (emit_refuses (hsu.ready hs) hrun).after hsu

end Lower

end GuardedFlow
