import GuardedFlow.Proofs.Lowering.InstructionOrder
import GuardedFlow.Proofs.Lowering.WellFormed

/-!
# Steps that answer

A calculus of total correctness. From a state in which a block is open and the program allows the regions
that a body accesses, a step answers, and the state that it leaves is such a state again. The calculus
follows the monad; `operand_answers` states it of operands of any depth of which no check refuses anything.
-/

namespace GuardedFlow

/-- One variable is minted for each request. -/
theorem VarSupply.length_mintAll (supply : VarSupply) (requests : List (String × Ty × VarRole)) :
    (supply.mintAll requests).1.length = requests.length := by
  simpa using congrArg List.length (supply.map_id_mintAll requests)

/-- A state of the lowering of a body in a program that started from the given one. It still allows the
regions. -/
structure LoweringState.Accords (p : Program) (body : Body) (regions : List Region) (s : LoweringState) :
    Prop where
  started : Continues (Session.startOf body p) s
  allows : s.program.Allows regions

/-- Only arrays have elements. -/
theorem Body.typeOf?_of_elementType? {body : Body} {array : Value} {element : Ty}
    (h : body.elementType? array = some element) : body.typeOf? array = some (.array element) := by
  unfold elementType? at h
  split at h
  · cases h
    assumption
  · cases h

namespace Session

variable (body : Body) (p : Program)

/-- Every local of the body has a variable. -/
theorem size_locals_startOf : (startOf body p).draft.locals.size = body.locals.size := by
  change (VarSupply.mintAll _ body.localRequests).1.toArray.size = _
  simp [VarSupply.length_mintAll, Body.localRequests]

/-- Every parameter of the method has a variable. -/
theorem size_params_startOf : (startOf body p).draft.params.size = body.method.params.length := by
  change (VarSupply.mintAll _ body.paramRequests).1.toArray.size = _
  simp [VarSupply.length_mintAll, Body.paramRequests]

variable {body}

/-- A method that is not static has a receiver. -/
theorem receiver_startOf (h : body.isStatic = false) : (startOf body p).draft.receiver.isSome = true := by
  change (VarSupply.mintAll _ body.receiverRequests).1.head?.isSome = _
  simp [Body.receiverRequests, h, VarSupply.mintAll]

/-- A method with a result has a variable for it. -/
theorem result_startOf (h : body.method.result.isVoid = false) :
    (startOf body p).draft.result.isSome = true := by
  change (VarSupply.mintAll _ body.resultRequests).1.head?.isSome = _
  simp [Body.resultRequests, h, VarSupply.mintAll]

end Session

namespace LoweringState.Accords

variable {p : Program} {body : Body} {regions : List Region} {s t : LoweringState}

/-- The program of a run in accord has grown. -/
theorem grows (h : s.Accords p body regions) : p.Grows s.program :=
  (Program.Grows.of_supply p p.log _ (Session.next_le_start body p.supply)).trans h.started.program

/-- A run in accord lowers the body. -/
theorem lowers (h : s.Accords p body regions) : s.draft.body = body := h.started.body

/-- A step that asks for no global keeps the program as it has to be. -/
theorem congr (h : s.Accords p body regions) (hst : Continues s t)
    (hglobals : t.program.globals = s.program.globals) : t.Accords p body regions :=
  ⟨h.started.trans hst, h.allows.among, fun region hregion v hv =>
    h.allows.known region hregion v (hglobals ▸ hv)⟩

/-- An accord outlasts steps that change the graph and the variables only. -/
theorem redirects (h : s.Accords p body regions) (hst : s.Redirects t) : t.Accords p body regions :=
  h.congr hst.continues (by cases hst; rfl)

end LoweringState.Accords

/-- A global of one of the regions is found, or it can be added. -/
theorem Program.Allows.global {p : Program} {regions : List Region} (h : p.Allows regions)
    {region : Region} (hregion : region ∈ regions) :
    ∃ v q, Session.global region.name region.ty p = .ok v q ∧ q.Allows regions := by
  rw [Session.global_eq]
  cases hlookup : p.globals.lookup region.name with
  | some v => exact ⟨v, p, by simp [h.known region hregion v hlookup], h⟩
  | none =>
    refine ⟨_, _, rfl, h.among, fun other hother v hv => ?_⟩
    change (p.globals.intern region.name _).2.lookup other.name = some v at hv
    rw [Table.lookup_intern] at hv
    cases hold : p.globals.lookup other.name with
    | some w =>
      rw [hold] at hv
      cases hv
      exact h.known other hother _ hold
    | none =>
      rw [hold, Option.none_or] at hv
      obtain ⟨hname, hv⟩ := Option.ite_none_right_eq_some.mp hv
      cases hv
      exact h.among region hregion other hother (by simpa using hname)

namespace Lower

variable {α β : Type} {p : Program} {body : Body} {regions : List Region}

/-- While a block is open, the step answers and leaves the block open, and its answer has a property. -/
def Answers (p : Program) (body : Body) (regions : List Region) (m : Lower α)
    (P : α → Prop := fun _ => True) : Prop :=
  ∀ s : LoweringState, s.Accords p body regions → s.Ready → s.openBlock.isSome = true →
    ∃ a out t, m s = .ok a t ∧ Emits s out none t ∧ t.Accords p body regions ∧ P a

namespace Answers

variable {m : Lower α} {f : α → Lower β} {P : α → Prop} {R : β → Prop}

/-- An answer is given. -/
theorem pure {a : α} (h : P a) : Answers p body regions (pure a) P :=
  fun s hs _ _ => ⟨a, [], s, rfl, .refl s, hs, h⟩

/-- Steps one after another answer if each of them does. -/
theorem bind (hm : Answers p body regions m P) (hf : ∀ a, P a → Answers p body regions (f a) R) :
    Answers p body regions (m >>= f) R := by
  intro s hs hready hopen
  obtain ⟨a, out, t, hrun, hst, ht, ha⟩ := hm s hs hready hopen
  obtain ⟨b, out', u, hrun', htu, hu, hb⟩ :=
    hf a ha t ht (hst.ready hready) (hst.openBlock ▸ hopen)
  exact ⟨b, out ++ out', u, by rw [bind_run, hrun]; exact hrun', hst.trans htu, hu, hb⟩

/-- A step that only reads the state. -/
theorem reads (h : ∀ s : LoweringState, s.Accords p body regions → ∃ a, m s = .ok a s ∧ P a) :
    Answers p body regions m P := fun s hs _ _ =>
  let ⟨a, hrun, ha⟩ := h s hs
  ⟨a, [], s, hrun, .refl s, hs, ha⟩

/-- What a draft may lack is found in it. -/
theorem found {step : Draft → Lower α} (find : Draft → Option α) (fault : Fault)
    (hstep : ∀ d, step d = (find d).elim (fail fault) Pure.pure)
    (h : ∀ s : LoweringState, s.Accords p body regions → ∃ a, find s.draft = some a ∧ P a) :
    Answers p body regions (draft >>= step) P := reads fun s hs => by
  obtain ⟨a, ha, hP⟩ := h s hs
  have hrun : (draft >>= step) s = (find s.draft).elim (fail fault) Pure.pure s :=
    congrFun (hstep s.draft) s
  rw [ha] at hrun
  exact ⟨a, hrun, hP⟩

/-- A step that asks for no global. -/
theorem of_yields
    (h : ∀ s : LoweringState, s.Accords p body regions → Yields m s fun _ fin a _ => fin = none ∧ P a)
    (hok : ∀ s : LoweringState, s.Ready → s.openBlock.isSome = true →
      ∃ a t, m s = .ok a t ∧ t.program.globals = s.program.globals) :
    Answers p body regions m P := by
  intro s hs hready hopen
  obtain ⟨a, t, hrun, hglobals⟩ := hok s hready hopen
  obtain ⟨out, fin, hst, rfl, ha⟩ := (h s hs).ok a t hrun
  exact ⟨a, out, t, hrun, hst, hs.congr hst.toContinues hglobals, ha⟩

/-- A step that asks for the program sees one that has grown. -/
theorem program {f : Program → Lower α} (h : ∀ q, p.Grows q → Answers p body regions (f q) P) :
    Answers p body regions (Lower.program >>= f) P :=
  fun s hs => h s.program hs.grows s hs

/-- The location can always be read. -/
theorem location : Answers p body regions Lower.location := .reads fun _ _ => ⟨_, rfl, trivial⟩

/-- There is always a fresh temporary. -/
theorem freshTemp (stem : String) (ty : Ty) : Answers p body regions (freshTemp stem ty) :=
  .of_yields (fun _ _ => yields_freshTemp fun _ _ _ _ => ⟨rfl, trivial⟩) fun _ _ _ => ⟨_, _, rfl, rfl⟩

/-- There is always a variable for the caught exception. -/
theorem caughtException (ty : Ty) : Answers p body regions (caughtException ty) :=
  .of_yields (fun _ _ => yields_caughtException (fun _ _ => ⟨rfl, trivial⟩) fun _ _ _ _ _ => ⟨rfl, trivial⟩)
    fun _ _ _ => ⟨_, _, rfl, rfl⟩

/-- A method can always be asked for. -/
theorem resolve (sig : MethodSig) : Answers p body regions (resolve sig) :=
  .of_yields (fun _ _ => yields_resolve ⟨rfl, trivial⟩) fun _ _ _ => ⟨_, _, rfl, rfl⟩

/-- An array class can always be asked for, and it is the one of the program before. -/
theorem arrayClass (element : Ty) :
    Answers p body regions (arrayClass element) (· = (p.arrayClass element).1) :=
  .of_yields (fun _ hs => yields_arrayClass ⟨rfl, hs.grows.arrays element⟩) fun _ _ _ => ⟨_, _, rfl, rfl⟩

/-- A finding can always be reported. -/
theorem report (severity : Severity) (category : Category) (message : String) :
    Answers p body regions (report severity category message) :=
  .of_yields (fun _ _ => yields_report fun _ => ⟨rfl, trivial⟩) fun _ _ _ => ⟨_, _, rfl, rfl⟩

/-- The use of monitors can always be marked. -/
theorem usesMonitors : Answers p body regions
    (modify fun s => { s with draft := { s.draft with usesMonitors := true } }) :=
  .of_yields (fun _ _ => yields_usesMonitors ⟨rfl, trivial⟩) fun _ _ _ => ⟨_, _, rfl, rfl⟩

/-- A statement is accepted while a block is open. -/
theorem emit (stmt : Stmt) : Answers p body regions (emit stmt) := by
  refine .of_yields (fun _ _ => yields_emit fun _ _ => ⟨rfl, trivial⟩) fun s hready hopen => ?_
  obtain ⟨block, hblock⟩ := Option.isSome_iff_exists.mp hopen
  have hnode : s.draft.graph.hasNode block = true := decide_eq_true (hready.openBlock block hblock).1
  change ∃ a t, (currentBlock >>= fun block => edit (·.append block stmt)) s = .ok a t ∧ _
  rw [bind_run, currentBlock_run, hblock]
  dsimp only
  rw [append_run, if_pos hnode]
  exact ⟨_, _, rfl, rfl⟩

/-- A statement about the current instruction is accepted while a block is open. -/
theorem emitHere (kind : StmtKind) : Answers p body regions (emitHere kind) :=
  location.bind fun _ _ => emit _

/-- A request for the global of one of the regions. -/
theorem request {session : Session α} {region : Region} (hregion : region ∈ regions) (answer : Var → α)
    (h : ∀ q, p.Grows q →
      session q = (do return answer (← Session.global region.name region.ty)) q) :
    Answers p body regions (request session) := by
  intro s hs _ _
  obtain ⟨v, q, hglobal, hq⟩ := hs.allows.global hregion
  have hrun : Lower.request session s = .ok (answer v) { s with program := q } := by
    rw [request_run, h _ hs.grows, bind_run, hglobal]
    rfl
  have hyields : Yields (Lower.request session) s fun _ fin _ _ => fin = none :=
    yields_global region.name region.ty answer (h _ hs.grows) fun _ _ _ _ _ => rfl
  obtain ⟨out, fin, hst, rfl⟩ := hyields.ok _ _ hrun
  exact ⟨_, out, _, hrun, hst, ⟨hs.started.trans hst.toContinues, hq⟩, trivial⟩

/-- An access to one of the regions. -/
theorem access {session : Location → Session Stmt} {region : Region} (hregion : region ∈ regions)
    (answer : Var → StmtKind)
    (h : ∀ location q, session location q =
      (do return (⟨location, answer (← Session.global region.name region.ty)⟩ : Stmt)) q) :
    Answers p body regions (do Lower.emit (← Lower.request (session (← Lower.location)))) :=
  location.bind fun l _ =>
    (request hregion (fun v => ⟨l, answer v⟩) fun q _ => h l q).bind fun _ _ => emit _

end Answers

/-! ### Accesses -/

/-- A type that the body knows is found. -/
theorem answers_typeOf {value : Value} {ty : Ty} (h : body.typeOf? value = some ty) :
    Answers p body regions (typeOf value) (· = ty) :=
  .found (·.body.typeOf? value) (.unknownType value) (fun d => by cases d.body.typeOf? value <;> rfl)
    fun s hs => ⟨ty, by rw [hs.lowers, h], rfl⟩

/-- A type of elements that the body knows is found. -/
theorem answers_elementType {array : Value} {element : Ty}
    (h : body.elementType? array = some element) :
    Answers p body regions (elementType array) (· = element) :=
  (answers_typeOf (Body.typeOf?_of_elementType? h)).bind fun _ hty => hty ▸ .pure rfl

variable {base index : Lower Expr} {field : FieldSig}

/-- A field of a region that has its type is read. -/
theorem answers_readField (hbase : Answers p body regions base) (hfield : .field field ∈ regions)
    (dest : Var) : Answers p body regions (readField base field dest) :=
  hbase.bind fun e _ => .access hfield (fun map => .assign (.var dest) (.cell map [e])) fun _ _ => rfl

/-- A field of a region that has its type is written. -/
theorem answers_writeField (hbase : Answers p body regions base) (hfield : .field field ∈ regions)
    (value : Expr) : Answers p body regions (writeField base field value) :=
  hbase.bind fun e _ => .access hfield (fun map => .assign (.cell map [e]) value) fun _ _ => rfl

/-- A static field of a region that has its type is read. -/
theorem answers_readStatic (hfield : .static field ∈ regions) (dest : Var) :
    Answers p body regions (readStatic field dest) :=
  .access hfield (fun v => .assign (.var dest) (.var v)) fun _ _ => rfl

/-- A static field of a region that has its type is written. -/
theorem answers_writeStatic (hfield : .static field ∈ regions) (value : Expr) :
    Answers p body regions (writeStatic field value) :=
  .access hfield (fun v => .assign (.var v) value) fun _ _ => rfl

section

variable {array : Value} {element : Ty} (harray : body.elementType? array = some element)
include harray

/-- An element of a region that has its type is read. -/
theorem answers_readElement (hbase : Answers p body regions base) (hindex : Answers p body regions index)
    (helement : .elements element ∈ regions) (dest : Var) :
    Answers p body regions (readElement array base index dest) := by
  apply (answers_elementType harray).bind
  rintro _ rfl
  exact hbase.bind fun a _ => hindex.bind fun i _ =>
    .access helement (fun map => .assign (.var dest) (.cell map [a, i])) fun _ _ => rfl

/-- An element of a region that has its type is written. -/
theorem answers_writeElement (hbase : Answers p body regions base) (hindex : Answers p body regions index)
    (helement : .elements element ∈ regions) (value : Expr) :
    Answers p body regions (writeElement array base index value) := by
  apply (answers_elementType harray).bind
  rintro _ rfl
  exact hbase.bind fun a _ => hindex.bind fun i _ =>
    .access helement (fun map => .assign (.cell map [a, i]) value) fun _ _ => rfl

/-- The length of an array is read where its region has its type. -/
theorem answers_readLength (hbase : Answers p body regions base)
    (hlength : p.lengthRegion element ∈ regions) (dest : Var) :
    Answers p body regions (readLength array base dest) :=
  (answers_elementType harray).bind fun _ h => (Answers.arrayClass _).bind fun _ hclass =>
    answers_readField hbase (by rw [hclass, h]; exact hlength) dest

end

/-- A tag is read where the region of tags has its type. -/
theorem answers_readTag (htag : p.tagRegion ∈ regions) (object : Expr) :
    Answers p body regions (readTag object) :=
  Answers.program fun _ hq => (Answers.freshTemp _ _).bind fun _ _ =>
    (answers_readField (.pure trivial) (hq.typeField ▸ htag) _).bind fun _ _ => .pure trivial

/-- A tag is written where the region of tags has its type. -/
theorem answers_writeTag (htag : p.tagRegion ∈ regions) (object : Expr) (ty : Ty) :
    Answers p body regions (writeTag object ty) :=
  Answers.program fun _ hq => answers_writeField (.pure trivial) (hq.typeField ▸ htag) _

/-! ### Calls -/

/-- Arguments are evaluated if each of them is. -/
theorem answers_mapM {args : List (Lower Expr)} (h : ∀ m ∈ args, Answers p body regions m) :
    Answers p body regions (args.mapM id) := by
  induction args with
  | nil => exact .pure trivial
  | cons arg rest ih =>
    rw [List.mapM_cons]
    exact (h arg List.mem_cons_self).bind fun _ _ =>
      (ih fun m hm => h m (List.mem_cons_of_mem _ hm)).bind fun _ _ => .pure trivial

/-- Arguments and a receiver are evaluated if each of them is. -/
theorem answers_arguments {base : Option (Lower Expr)} {args : List (Lower Expr)}
    (hbase : ∀ m ∈ base, Answers p body regions m) (hargs : ∀ m ∈ args, Answers p body regions m) :
    Answers p body regions (arguments base args) :=
  (answers_mapM hargs).bind fun _ _ => by
    cases base with
    | none => exact .pure trivial
    | some m => exact (hbase m rfl).bind fun _ _ => .pure trivial

/-- A call that means a call answers if its operands do. The base of a static call is not one of
them. -/
theorem answers_call {call : Call (Lower Expr)} {dest : Option Expr}
    (hbase : call.kind ≠ .static → ∀ m ∈ call.base, Answers p body regions m)
    (hargs : ∀ m ∈ call.args, Answers p body regions m)
    (hreceiver : call.kind.hasReceiver = true → call.base.isSome = true)
    (hindirect : call.kind = .dynamic → p.config.strictUnsupported = false)
    (hidiom : call.kind ≠ .dynamic → Idiom.lookup p.idioms ⟨call.method, dest.isSome⟩ = none) :
    Answers p body regions (Lower.call call dest) := by
  unfold Lower.call
  by_cases hdynamic : call.kind = .dynamic
  · have hevaluated : ∀ m ∈ call.base, Answers p body regions m := hbase (by simp [hdynamic])
    simp only [hdynamic, if_true]
    refine Answers.program fun q hq => ?_
    simp only [hq.config, hindirect hdynamic, Bool.false_eq_true, if_false]
    exact (Answers.report _ _ _).bind fun _ _ => (answers_arguments hevaluated hargs).bind fun _ _ =>
      .emitHere _
  · simp only [hdynamic, if_false]
    refine Answers.program fun q hq => ?_
    rw [hq.idioms, hidiom hdynamic]
    refine (answers_arguments (fun m hm => ?_) hargs).bind fun _ _ => (Answers.resolve _).bind fun _ _ =>
      .emitHere _
    obtain ⟨hkind, hm⟩ := Option.ite_none_right_eq_some.mp (Option.mem_def.mp hm)
    cases hm
    obtain ⟨base, hsome⟩ := Option.isSome_iff_exists.mp (hreceiver hkind)
    unfold receiver
    rw [hsome]
    refine hbase (fun hstatic => ?_) base hsome
    rw [hstatic] at hkind
    cases hkind

end Lower

/-! ### Operands -/

/-- What can be assigned to is a local or a heap location. -/
theorem Value.slot_or_isHeapLocation (v : Value) (h : v.isPlace = true) :
    (∃ slot, v = .slot slot) ∨ v.isHeapLocation = true := by
  cases v with
  | slot slot => exact .inl ⟨slot, rfl⟩
  | _ => exact .inr h

/-- The accesses of a call that means a call. The base of a static call is not evaluated. -/
theorem Call.accesses_plain {p : Program} {call : Call (List Access)} {hasResult : Bool}
    (h : call.kind ≠ .dynamic → Idiom.lookup p.idioms ⟨call.method, hasResult⟩ = none) :
    call.accesses p hasResult =
      call.args.flatten ++ if call.kind = .static then [] else call.base.getD [] := by
  unfold Call.accesses
  cases hkind : call.kind <;> simp_all [CallKind.hasReceiver]

/-- Nothing is refused of the given operands, calls and accesses. -/
structure Accepted (p : Program) (body : Body) (regions : List Region) (operands : List Value)
    (sites : List CallSite) (accesses : List Access) : Prop where
  operands : ∀ v ∈ operands, v.WellFormed p body
  sites : ∀ site ∈ sites, Idiom.lookup p.idioms site = none
  regions : ∀ access ∈ accesses, access.region ∈ regions

/-- Nothing is refused of an operand and of those in it. -/
abbrev Value.Accepted (p : Program) (body : Body) (regions : List Region) (v : Value) : Prop :=
  GuardedFlow.Accepted p body regions v.parts v.callSites (v.accesses p body)

/-- Nothing is refused of the operands of an operation. -/
abbrev Op.Accepted (p : Program) (body : Body) (regions : List Region) (op : Op Nat) : Prop :=
  GuardedFlow.Accepted p body regions op.operands op.callSites (op.accesses p body)

namespace Accepted

variable {p : Program} {body : Body} {regions : List Region} {operands operands' : List Value}
  {sites sites' : List CallSite} {accesses accesses' : List Access}

/-- Fewer operands, call sites and accesses are accepted as well. -/
theorem mono (h : Accepted p body regions operands sites accesses) (hoperands : operands' ⊆ operands)
    (hsites : sites' ⊆ sites) (haccesses : accesses' ⊆ accesses) :
    Accepted p body regions operands' sites' accesses' :=
  ⟨fun v hv => h.operands v (hoperands hv), fun site hsite => h.sites site (hsites hsite),
    fun access haccess => h.regions access (haccesses haccess)⟩

/-- Nothing is refused of an operand that stands in an accepted one. -/
theorem value {v w : Value} (h : w.Accepted p body regions)
    (hparts : v.parts ⊆ w.parts := by simp +contextual [List.subset_def, Value.parts, Value.inner])
    (hsites : v.callSites ⊆ w.callSites := by simp +contextual [List.subset_def, Value.callSites])
    (haccesses : v.accesses p body ⊆ w.accesses p body := by
      simp +contextual [List.subset_def, Value.accesses]) :
    v.Accepted p body regions := h.mono hparts hsites haccesses

/-- Nothing is refused of an operand itself. -/
theorem self {v : Value} (h : v.Accepted p body regions) : v.WellFormed p body :=
  h.operands v List.mem_cons_self

section

variable {kind : CallKind} {method : MethodSig} {base : Option Value} {args : List Value}
  {hasResult : Bool} (h : Accepted p body regions operands
    (CallSite.of kind method hasResult ++ Value.callSites? base ++ Value.callSitesOf args)
    (Call.accesses p ⟨kind, method, Value.accesses? p body base, Value.accessesAll p body args⟩ hasResult))
include h

/-- An accepted call means a call. -/
theorem idiom (hkind : kind ≠ .dynamic) : Idiom.lookup p.idioms ⟨method, hasResult⟩ = none :=
  h.sites _ (by simp [CallSite.of, hkind])

/-- The arguments of an accepted call are accepted. -/
theorem ofArgs (hoperands : Value.innerOf args ⊆ operands) : Accepted p body regions
    (Value.innerOf args) (Value.callSitesOf args) (Value.accessesAll p body args).flatten := by
  refine h.mono hoperands (by simp) fun access haccess => ?_
  rw [Call.accesses_plain h.idiom]
  exact List.mem_append_left _ haccess

/-- The receiver of an accepted call is accepted. -/
theorem ofBase (hoperands : Value.inner? base ⊆ operands) (hkind : kind ≠ .static) : Accepted p body regions
    (Value.inner? base) (Value.callSites? base) ((Value.accesses? p body base).getD []) := by
  refine h.mono hoperands (fun site hsite => by simp [hsite]) fun access haccess => ?_
  rw [Call.accesses_plain h.idiom]
  simp [hkind, haccess]

end

end Accepted

namespace Lower

variable {p : Program} {body : Body} {regions : List Region}

/-- A declared local has a variable. -/
theorem answers_localVar {slot : Nat} (h : slot < body.locals.size) :
    Answers p body regions (localVar slot) :=
  .found (·.locals[slot]?) (.undeclaredLocal slot) (fun d => by cases d.locals[slot]? <;> rfl) fun s hs => by
    have hslot : slot < s.draft.locals.size := by
      rw [hs.started.locals, Session.size_locals_startOf]
      exact h
    exact ⟨_, Array.getElem?_eq_getElem hslot, trivial⟩

/-- A declared parameter has a variable. -/
theorem answers_paramVar {index : Nat} (h : index < body.method.params.length) :
    Answers p body regions (paramVar index) :=
  .found (·.params[index]?) (.parameterOutOfRange index) (fun d => by cases d.params[index]? <;> rfl)
    fun s hs => by
      have hindex : index < s.draft.params.size := by
        rw [hs.started.params, Session.size_params_startOf]
        exact h
      exact ⟨_, Array.getElem?_eq_getElem hindex, trivial⟩

/-- A method that is not static has a variable for its receiver. -/
theorem answers_receiverVar (h : body.isStatic = false) : Answers p body regions receiverVar :=
  .found (·.receiver) .receiverInStatic (fun d => by cases d.receiver <;> rfl) fun s hs => by
    obtain ⟨v, hv⟩ := Option.isSome_iff_exists.mp (Session.receiver_startOf p h)
    exact ⟨v, by rw [hs.started.receiver, hv], trivial⟩

/-- What can be evaluated into every variable can be evaluated into a fresh one. -/
theorem answers_intoTemp (ty : Ty) {evaluate : Var → Lower Unit}
    (h : ∀ temp, Answers p body regions (evaluate temp)) : Answers p body regions (intoTemp ty evaluate) :=
  (Answers.freshTemp _ _).bind fun temp _ => (h temp).bind fun _ _ => .pure trivial

/-- The lowering of an operand that is present is present. -/
theorem isSome_operand? (v : Option Value) : (operand? v).isSome = v.isSome := by
  cases v <;> rfl

mutual

/-- The lowering of an accepted operand answers. -/
theorem operand_answers : ∀ v : Value, v.Accepted p body regions → Answers p body regions (operand v)
  | .slot _, h => (answers_localVar h.self).bind fun _ _ => .pure trivial
  | .const _, _ => .pure trivial
  | .unary _ v, h => (operand_answers v h.value).bind fun _ _ => .pure trivial
  | .binary _ v w, h => (operand_answers v h.value).bind fun _ _ =>
    (operand_answers w h.value).bind fun _ _ => .pure trivial
  | .cast _ v, h => operand_answers v h.value
  | .instanceOf _ v, h => (operand_answers v h.value).bind fun _ _ =>
    (answers_readTag (h.regions ⟨.read, p.tagRegion⟩ (by simp [Value.accesses])) _).bind
      fun _ _ => .pure trivial
  | .length v, h => answers_intoTemp _ fun temp => by
    obtain ⟨element, helement⟩ := Option.isSome_iff_exists.mp h.self
    refine answers_readLength helement (operand_answers v h.value) ?_ temp
    exact h.regions ⟨.read, p.lengthRegion element⟩ (by simp [Value.accesses, helement])
  | .new _, _ | .newArray .., _ | .newMultiArray .., _ => .pure trivial
  | .field v field, h => (answers_typeOf rfl).bind fun _ _ => answers_intoTemp _ fun temp =>
    answers_readField (operand_answers v h.value)
      (h.regions ⟨.read, .field field⟩ (by simp [Value.accesses])) temp
  | .staticField field, h => (answers_typeOf rfl).bind fun _ _ => answers_intoTemp _ fun temp =>
    answers_readStatic (h.regions ⟨.read, .static field⟩ (by simp [Value.accesses])) temp
  | .element v w, h => by
    obtain ⟨element, helement⟩ := Option.isSome_iff_exists.mp h.self
    have hty : body.typeOf? (.element v w) = some element := by
      simp [Body.typeOf?, Body.typeOf?_of_elementType? helement, Ty.element?]
    refine (answers_typeOf hty).bind fun _ _ => answers_intoTemp _ fun temp => ?_
    refine answers_readElement helement (operand_answers v h.value) (operand_answers w h.value) ?_ temp
    exact h.regions ⟨.read, .elements element⟩ (by simp [Value.accesses, helement])
  | .call kind method base args, h => answers_intoTemp _ fun temp =>
    answers_call (fun hkind => operand?_answers base (h.ofBase (by simp [Value.parts, Value.inner]) hkind))
      (operands_answer args (h.ofArgs (by simp [Value.parts, Value.inner])))
      (fun hkind => (isSome_operand? base).trans (h.self.receiver hkind)) h.self.indirect h.idiom
  | .parameter _ _, h => (answers_paramVar h.self).bind fun _ _ => .pure trivial
  | .receiver _, h => (answers_receiverVar h.self).bind fun _ _ => .pure trivial
  | .caughtException ty, _ => (Answers.caughtException ty).bind fun _ _ => .pure trivial

/-- Accepted operands of a list are lowered, one by one. -/
theorem operands_answer : ∀ vs : List Value, Accepted p body regions (Value.innerOf vs)
    (Value.callSitesOf vs) (Value.accessesAll p body vs).flatten →
    ∀ m ∈ operands vs, Answers p body regions m
  | [], _, _, hm => absurd hm List.not_mem_nil
  | v :: rest, h, m, hm => by
    rcases List.mem_cons.mp hm with rfl | hm
    · exact operand_answers v (h.mono (by simp [Value.parts, Value.innerOf]) (by simp [Value.callSitesOf])
        (by simp [Value.accessesAll]))
    · exact operands_answer rest (h.mono (by simp [Value.innerOf]) (by simp [Value.callSitesOf])
        (by simp [Value.accessesAll])) m hm

/-- An accepted operand is lowered if it is present. -/
theorem operand?_answers : ∀ v : Option Value, Accepted p body regions (Value.inner? v)
    (Value.callSites? v) ((Value.accesses? p body v).getD []) →
    ∀ m ∈ operand? v, Answers p body regions m
  | none, _, _, hm => by cases hm
  | some v, h, m, hm => by
    cases hm
    exact operand_answers v h

end

end Lower

end GuardedFlow
