import Mathlib.Logic.Relation
import GuardedFlow.Proofs.Lowering.Parts

/-!
# What a step tells the program

A lowering changes the program only by requests: it resolves methods, asks for array classes and globals,
takes numbers for variables and reports findings. What is left behind of these requests for others to see
are the methods that were asked for and the findings: indirect calls that become opaque ones, calls that
exit the process, monitors. Each of these is a `Note`. `LoweringState.Told` states that the findings of some
notes are all that was added to the log, and the methods that they resolve all that was added to the
methods. Most steps are `Quiet`: they make requests, and tell nothing.
-/

namespace GuardedFlow

namespace Diagnostic

/-- An indirect call becomes an opaque one. -/
def indirectCall (method : MethodSig) (location : Location) (signature : String) : Diagnostic where
  severity := .warning
  category := .call
  message := s!"unsound: indirect invocation of {signature} treated as opaque call"
  method := method.text
  location

/-- A call exits the process. -/
def exit (method : MethodSig) (location : Location) (callee : MethodSig) : Diagnostic where
  severity := .info
  category := .control
  message := s!"{callee} ends the path"
  method := method.text
  location

/-- A monitor is entered or left. -/
def monitor (method : MethodSig) (location : Location) (name : String) (lock : Value) : Diagnostic where
  severity := .info
  category := .monitor
  message := s!"{name} {lock}: synchronization not modelled"
  method := method.text
  location

end Diagnostic

/-- What the lowering of an instruction tells the program. -/
inductive Note where
  /-- A method is asked for. -/
  | resolved (method : MethodSig)
  /-- An indirect call becomes an opaque one. -/
  | indirect (signature : String)
  /-- A call exits the process. -/
  | halted (method : MethodSig)
  /-- A monitor is entered or left. -/
  | monitor (name : String) (lock : Value)

namespace Note

/-- The finding that a note leaves in the log. -/
def finding? (method : MethodSig) (location : Location) : Note → Option Diagnostic
  | resolved _ => none
  | indirect signature => some (.indirectCall method location signature)
  | halted callee => some (.exit method location callee)
  | monitor name lock => some (.monitor method location name lock)

/-- The signature of an indirect call. -/
def indirect? : Note → Option String
  | indirect signature => some signature
  | _ => none

/-- The call that exits the process. -/
def halted? : Note → Option MethodSig
  | halted callee => some callee
  | _ => none

/-- The monitor that is entered or left. -/
def monitor? : Note → Option (String × Value)
  | monitor name lock => some (name, lock)
  | _ => none

end Note

/-- One request of a lowering to the program. -/
inductive Program.Request : Program → Program → Prop
  | resolve (p : Program) (sig : MethodSig) : Request p (p.resolve sig).2
  | arrayClass (p : Program) (element : Ty) : Request p (p.arrayClass element).2
  | global (p : Program) (name : String) (ty : Ty) : Request p (stateAfter (Session.global name ty p))
  | mint (p : Program) (supply : VarSupply) (h : p.supply.next ≤ supply.next) : Request p { p with supply }
  | report (p : Program) (d : Diagnostic) : Request p (p.report d)

/-- A program was changed by requests, one after another. -/
abbrev Program.Requested : Program → Program → Prop := Relation.ReflTransGen Program.Request

/-- All that happened to the log and to the methods of a program is what the notes tell. -/
structure Program.Told (method : MethodSig) (notes : List (Location × Note)) (p q : Program) : Prop where
  log : q.log.toList = p.log.toList ++ notes.filterMap fun note => note.2.finding? method note.1
  methods : ∀ m ∈ q.methods.values, m ∈ p.methods.values ∨ ∃ note ∈ notes, note.2 = .resolved m.sig

namespace Program.Told

variable {method : MethodSig} {notes more : List (Location × Note)} {p q r : Program}

/-- Nothing is told as long as the log and the methods stay. -/
theorem of_eq (hlog : q.log = p.log) (hmethods : q.methods = p.methods) : Told method [] p q where
  log := by rw [hlog, List.filterMap_nil, List.append_nil]
  methods m hm := .inl (hmethods ▸ hm)

/-- What is told to one program after another. -/
theorem trans (hpq : Told method notes p q) (hqr : Told method more q r) :
    Told method (notes ++ more) p r where
  log := by rw [hqr.log, hpq.log, List.filterMap_append, List.append_assoc]
  methods m hm := by
    rcases hqr.methods m hm with hm | ⟨note, hnote, hresolved⟩
    · rcases hpq.methods m hm with hm | ⟨note, hnote, hresolved⟩
      · exact .inl hm
      · exact .inr ⟨note, List.mem_append_left _ hnote, hresolved⟩
    · exact .inr ⟨note, List.mem_append_right _ hnote, hresolved⟩

end Program.Told

/-- A program was changed by requests, of which no method and no finding is left. -/
structure Program.Quiet (p q : Program) : Prop where
  requests : p.Requested q
  log : q.log = p.log
  methods : q.methods = p.methods

namespace Program.Quiet

variable {p q r : Program}

/-- No request leaves nothing. -/
theorem refl (p : Program) : Quiet p p := ⟨.refl, rfl, rfl⟩

/-- Requests that leave nothing follow one another. -/
theorem trans (hpq : Quiet p q) (hqr : Quiet q r) : Quiet p r :=
  ⟨hpq.requests.trans hqr.requests, hqr.log.trans hpq.log, hqr.methods.trans hpq.methods⟩

/-- A request for a global leaves no method and no finding. -/
theorem global (name : String) (ty : Ty) (p : Program) : Quiet p (stateAfter (Session.global name ty p)) := by
  refine ⟨.single (.global p name ty), ?_, ?_⟩ <;>
  · rw [Session.global_eq]
    cases p.globals.lookup name with
    | some v => by_cases hty : v.ty = ty <;> simp only [hty, if_true, if_false] <;> rfl
    | none => rfl

end Program.Quiet

/-- A key adds at most its value. -/
theorem Table.mem_values_intern {κ α : Type} [BEq κ] {t : Table κ α} {key : κ} {value a : α}
    (h : a ∈ (t.intern key value).2.values) : a ∈ t.values ∨ a = value := by
  unfold intern at h
  split at h
  · exact .inl h
  · simpa [values] using h

namespace LoweringState

/-- What a step told the program about the current instruction. -/
def Told (s : LoweringState) (notes : List Note) (t : LoweringState) : Prop :=
  s.program.Told s.draft.body.method (notes.map (s.draft.location, ·)) t.program

variable {s t u : LoweringState} {notes more : List Note} {out : List Stmt} {fin : Option PathEnd}

/-- What is told by one step after another. -/
theorem Told.trans (h : s.Told notes t) (hst : Emits s out fin t) (h' : t.Told more u) :
    s.Told (notes ++ more) u := by
  unfold Told at h' ⊢
  rw [hst.body, hst.location] at h'
  rw [List.map_append]
  exact Program.Told.trans h h'

end LoweringState

namespace Lower

variable {α β : Type}

/-! ### Steps that tell nothing -/

/-- A step that makes requests, and leaves no method and no finding behind. -/
def Quiet (m : Lower α) : Prop := ∀ s : LoweringState, s.program.Quiet (stateAfter (m s)).program

namespace Quiet

variable {m : Lower α} {f : α → Lower β}

/-- A step that leaves the program alone. -/
theorem of_program (h : ∀ s, (stateAfter (m s)).program = s.program) : Quiet m := fun s => by
  rw [h]
  exact .refl _

/-- An answer leaves the program alone. -/
theorem pure (a : α) : Quiet (pure a) := .of_program fun _ => rfl

/-- A failure leaves the program alone. -/
theorem fail (fault : Fault) : Quiet (fail fault : Lower α) := .of_program fun _ => rfl

/-- Quiet steps one after another are quiet. -/
theorem bind (hm : Quiet m) (hf : ∀ a, Quiet (f a)) : Quiet (m >>= f) := fun s => by
  have hfirst := hm s
  rw [bind_run]
  cases hs : m s with
  | error e t =>
    rw [hs] at hfirst
    exact hfirst
  | ok a t =>
    rw [hs] at hfirst
    exact hfirst.trans (hf a t)

/-- A quiet step tells nothing. -/
theorem told (h : Quiet m) (s : LoweringState) : s.Told [] (stateAfter (m s)) :=
  .of_eq (h s).log (h s).methods

/-- A quiet step that answers has told nothing. -/
theorem told_ok (h : Quiet m) {s t : LoweringState} {a : α} (hrun : m s = .ok a t) : s.Told [] t := by
  have htold := h.told s
  rw [hrun] at htold
  exact htold

/-- A quiet step that fails has told nothing. -/
theorem told_error (h : Quiet m) {s t : LoweringState} {e : Error} (hrun : m s = .error e t) :
    s.Told [] t := by
  have htold := h.told s
  rw [hrun] at htold
  exact htold

/-- Reading the state leaves the program alone. -/
theorem get : Quiet (get : Lower LoweringState) := .of_program fun _ => rfl

/-- Reading the draft leaves the program alone. -/
theorem draft : Quiet draft := .of_program fun _ => rfl

/-- Reading the location leaves the program alone. -/
theorem location : Quiet location := .of_program fun _ => rfl

/-- Opening and closing blocks leaves the program alone. -/
theorem setOpen (block : Option BlockId) : Quiet (setOpen block) := .of_program fun _ => rfl

/-- Finding and making blocks leaves the program alone. -/
theorem blockAt (index : Nat) : Quiet (blockAt index) := .of_program fun _ => rfl

/-- Changes of the graph leave the program alone. -/
theorem edit (change : Draft → Except Error Draft) : Quiet (edit change) := .of_program fun s => by
  unfold Lower.edit
  cases change s.draft <;> rfl

/-- Asking for the open block leaves the program alone. -/
theorem currentBlock : Quiet currentBlock := get.bind fun s => by
  cases s.openBlock with
  | none => exact fail _
  | some block => exact pure block

/-- Statements go to the graph. -/
theorem emit (stmt : Stmt) : Quiet (emit stmt) := currentBlock.bind fun _ => edit _

/-- Statements about the current instruction go to the graph. -/
theorem emitHere (kind : StmtKind) : Quiet (emitHere kind) := location.bind fun _ => emit _

/-- A return goes to the graph. -/
theorem returnVoid : Quiet returnVoid :=
  currentBlock.bind fun _ => (edit _).bind fun _ => setOpen none

/-- A new temporary takes a number. -/
theorem freshTemp (stem : String) (ty : Ty) : Quiet (freshTemp stem ty) := fun s =>
  ⟨.single (.mint s.program _ (Nat.le_succ _)), rfl, rfl⟩

/-- The caught exception takes a number once. -/
theorem caughtException (ty : Ty) : Quiet (caughtException ty) := fun s => by
  refine ⟨.single (.mint s.program _ ?_), rfl, rfl⟩
  cases s.draft.exception with
  | none => exact Nat.le_succ _
  | some v => exact Nat.le_refl _

/-- An array class is asked for; it is neither a method nor a finding. -/
theorem arrayClass (element : Ty) : Quiet (arrayClass element) := fun s =>
  ⟨.single (.arrayClass s.program element), rfl, rfl⟩

/-- A request that comes down to one global. -/
theorem request {session : Session α} (name : Program → String) (ty : Program → Ty) (answer : Var → α)
    (h : ∀ p, session p = (do return answer (← Session.global (name p) (ty p))) p) :
    Quiet (request session) := fun s => by
  have hglobal := Program.Quiet.global (name s.program) (ty s.program) s.program
  rw [request_run, h, bind_run]
  cases hs : Session.global (name s.program) (ty s.program) s.program <;> rw [hs] at hglobal <;> exact hglobal

/-- An access asks for the global that it goes to. -/
theorem access {session : Location → Session Stmt} (name : Program → String) (ty : Program → Ty)
    (answer : Var → StmtKind) (h : ∀ location p, session location p =
      (do return (⟨location, answer (← Session.global (name p) (ty p))⟩ : Stmt)) p) :
    Quiet (do Lower.emit (← Lower.request (session (← Lower.location)))) :=
  location.bind fun l => (request name ty (fun v => ⟨l, answer v⟩) (h l)).bind emit

/-- Marking the use of monitors leaves the program alone. -/
theorem usesMonitors :
    Quiet (modify fun s : LoweringState => { s with draft := { s.draft with usesMonitors := true } }) :=
  .of_program fun _ => rfl

/-! Jumps change the graph only. -/

/-- Checking the target of a jump leaves the program alone. -/
theorem checkTarget (target : Nat) : Quiet (checkTarget target) := draft.bind fun d => by
  split
  · exact fail _
  · exact pure ()

/-- A jump changes the graph only. -/
theorem goto (target : Nat) : Quiet (goto target) := (checkTarget target).bind fun _ =>
  currentBlock.bind fun _ => (blockAt target).bind fun _ => (edit _).bind fun _ => setOpen none

/-- The second edge of a conditional jump changes the graph only. -/
theorem fallThrough (source : BlockId) (condition : Expr) (next : Option Nat) :
    Quiet (fallThrough source condition next) := by
  cases next with
  | some next => exact (blockAt next).bind fun _ => (edit _).bind fun _ => setOpen _
  | none => exact (edit _).bind fun _ => setOpen _

/-- Both edges of a conditional jump change the graph only. -/
theorem fork (index target : Nat) (condition : Expr) : Quiet (fork index target condition) := by
  refine draft.bind fun d => ?_
  dsimp only
  split
  · exact pure ()
  · exact currentBlock.bind fun _ => (blockAt target).bind fun _ => (edit _).bind fun _ =>
      fallThrough _ _ _

/-- Leading the open block to another one changes the graph only. -/
theorem leadTo (source other : BlockId) : Quiet (leadTo source other) := (edit _).bind fun _ => setOpen _

/-- Going on from the open block changes the graph only. -/
theorem proceed (oracle : PredecessorOracle) (index : Nat) (source : BlockId) (starts : Option BlockId) :
    Quiet (proceed oracle index source starts) := by
  cases starts with
  | some other =>
    rw [Lower.proceed]
    split
    · exact leadTo source other
    · exact pure ()
  | none =>
    rw [Lower.proceed]
    split
    · exact (blockAt index).bind fun _ => leadTo source _
    · exact pure ()

/-- Entering an instruction changes the graph only. -/
theorem enter (oracle : PredecessorOracle) (index : Nat) : Quiet (enter oracle index) := by
  rw [enter_eq]
  refine bind (.of_program fun _ => rfl) fun _ => get.bind fun s => ?_
  cases s.openBlock with
  | none => exact (blockAt index).bind fun _ => setOpen _
  | some source => exact proceed oracle index source _

/-- Closing the last block changes the graph only. -/
theorem close (body : Body) : Quiet (close body) := by
  unfold Lower.close
  split
  · exact edit _
  · refine get.bind fun s => ?_
    cases s.openBlock with
    | some block => exact (setOpen none).bind fun _ => edit _
    | none => exact pure ()

end Quiet

end Lower

end GuardedFlow
