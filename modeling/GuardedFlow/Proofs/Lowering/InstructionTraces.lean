import GuardedFlow.Proofs.Lowering.Traces

/-!
# The events of every instruction

One specification for each function of the lowering: which events it does when its operands do theirs, and
what its answer is. `operand_traces` puts them together by recursion on the operand, and `operation_traces`
covers all operations that do not jump.
-/

namespace GuardedFlow

open Event (owned stored)

namespace Lower

variable {s : LoweringState}

/-! ### Statements without accesses -/

section Statements

variable {held : Bool} {dest : Var} {value : Expr}

/-- A variable is set to the value of an operand. -/
theorem traces_assignVar (hdest : s.Owns dest) (hvalue : s.Lowered held value) :
    Traces s (emitHere (.assign (.var dest) value)) (stored held) fun _ => True :=
  .emitHere (by simp) (by simp) fun _ _ => .store hdest hvalue

/-- A variable is set to something else than a whole fresh reference. -/
theorem traces_assignOwn (hdest : s.Owns dest) (hvalue : s.Lowered held value)
    (hfresh : s.Proper → (StmtKind.assign (.var dest) value).fresh? = none) :
    Traces s (emitHere (.assign (.var dest) value)) (owned held) fun _ => True :=
  .emitOwn fun _ _ => .own rfl rfl (fun hs => StmtKind.internal_assign (hdest hs) (hvalue.isPrivate hs))
    (by simp [StmtKind.allocates, Expr.allocates, hvalue.allocates]) hfresh

/-- An assertion of an operand. -/
theorem traces_assert (hvalue : s.Lowered held value) :
    Traces s (emitHere (.assert value)) (owned held) fun _ => True :=
  .emitOwn fun _ _ => .own rfl rfl (fun hs => StmtKind.internal_assert (hvalue.isPrivate hs))
    hvalue.allocates fun _ => rfl

/-- An assumption of an operand. -/
theorem traces_assume (hvalue : s.Lowered held value) :
    Traces s (emitHere (.assume value)) (owned held) fun _ => True :=
  .emitOwn fun _ _ => .own rfl rfl (fun hs => StmtKind.internal_assume (hvalue.isPrivate hs))
    hvalue.allocates fun _ => rfl

end Statements

/-! ### Accesses -/

/-- The type of an operand is the one that the body gives it. -/
theorem traces_typeOf (value : Value) :
    Traces s (typeOf value) [] fun ty => s.draft.body.typeOf? value = some ty :=
  Traces.draft fun t ht => by
    rw [ht.body]
    cases s.draft.body.typeOf? value with
    | none => exact .fail _ rfl
    | some ty => exact .pure rfl

/-- The type of the elements of an array, where the operand is one. -/
theorem traces_elementType (array : Value) :
    Traces s (elementType array) [] fun element => s.draft.body.elementType? array = some element :=
  (traces_typeOf array).andThen fun ty hty => by
    cases ty with
    | array element => exact .pure (by rw [Body.elementType?, hty])
    | prim _ | named _ | map _ _ => exact .fail _ rfl

variable {base index : Lower Expr} {first second : Trace} {dest : Var}

/-- The base is evaluated, and then the field is read. -/
theorem traces_readField (hbase : Evaluates s base first) (field : FieldSig) (hdest : s.Owns dest) :
    Traces s (readField base field dest) (first.events ++ [.read (.field field) first.held]) fun _ => True :=
  Traces.bind hbase fun e he => .access (fun _ => field.mapName) _
    (fun map => .assign (.var dest) (.cell map [e])) (fun _ _ => rfl) rfl rfl fun _ _ _ _ _ _ hmap =>
      .stmt (fun hs => .performed (.read (.field hmap (he.isPrivate hs)) (hdest hs))) rfl rfl
        (by simp [StmtKind.allocates, Expr.allocates, Expr.allocatesAny, he.allocates, Event.counts])
        fun _ _ => rfl

/-- Reading a field that the heap model adds is no effect. -/
theorem traces_readHidden (hbase : Evaluates s base first) {field : FieldSig}
    (hfield : s.program.Hidden field) (hdest : s.Owns dest) :
    Traces s (readField base field dest) (first.events ++ owned first.held) fun _ => True :=
  Traces.bind hbase fun e he => .access (fun _ => field.mapName) _
    (fun map => .assign (.var dest) (.cell map [e])) (fun _ _ => rfl) (by simp) (by simp)
      fun _ _ _ _ hp hq hmap => .own rfl rfl
        (fun hs => StmtKind.internal_read (hdest hs) ⟨field, (hp.trans hq).hidden hfield, hmap⟩
          (he.isPrivate hs))
        (by simp [StmtKind.allocates, Expr.allocates, Expr.allocatesAny, he.allocates]) fun _ => rfl

/-- The base is evaluated, and then the field is written. -/
theorem traces_writeField (hbase : Evaluates s base first) (field : FieldSig) {value : Expr}
    {fresh : Bool} (hvalue : s.Lowered fresh value) : Traces s (writeField base field value)
      (first.events ++ [.write (.field field) (first.held || fresh)]) fun _ => True :=
  Traces.bind hbase fun e he => .access (fun _ => field.mapName) _
    (fun map => .assign (.cell map [e]) value) (fun _ _ => rfl) rfl rfl fun _ _ _ _ _ _ hmap =>
      .stmt (fun hs => .performed (.write (.field hmap (he.isPrivate hs)) (hvalue.isPrivate hs))) rfl rfl
        (by simp [StmtKind.allocates, Expr.allocates, Expr.allocatesAny, he.allocates, hvalue.allocates,
          Event.counts]) fun _ _ => rfl

/-- A static field is read. -/
theorem traces_readStatic (field : FieldSig) (hdest : s.Owns dest) :
    Traces s (readStatic field dest) [.read (.staticField field) false] fun _ => True :=
  .access (fun _ => field.qualifiedName) _ (fun v => .assign (.var dest) (.var v)) (fun _ _ => rfl) rfl rfl
    fun _ _ _ _ _ _ hv => .stmt (fun hs => .performed (.read (.staticField hv) (hdest hs))) rfl rfl rfl
      fun _ _ => rfl

/-- A static field is no local, so a fresh reference that is stored in it leaks. -/
theorem traces_writeStatic (field : FieldSig) {value : Expr} {fresh : Bool}
    (hvalue : s.Lowered fresh value) :
    Traces s (writeStatic field value) [.write (.staticField field) fresh] fun _ => True :=
  .access (fun _ => field.qualifiedName) _ (fun v => .assign (.var v) value) (fun _ _ => rfl) rfl rfl
    fun _ _ v _ hp hq hv => .stmt
      (fun hs => .performed (.write (.staticField hv) (hvalue.isPrivate hs))) rfl rfl
      (by simp [StmtKind.allocates, Expr.allocates, hvalue.allocates, Event.counts]) fun hs _ => by
        have hrole := ((hp.trans hq).named hs.named _ v hv).2
        cases value <;> simp [StmtKind.fresh?, hrole]

/-- The array and the index are evaluated in this order, and then the element is read. -/
theorem traces_readElement (array : Value) (hbase : Evaluates s base first)
    (hindex : Evaluates s index second) (hdest : s.Owns dest) :
    Traces s (readElement array base index dest)
      (first.events ++ (second.events ++ [.read (.element array) (first.held || second.held)]))
      fun _ => True :=
  (traces_elementType array).andThen fun element helement => Traces.bind hbase fun e he =>
    Traces.bind hindex fun i hi => .access (fun _ => element.mapName) _
      (fun map => .assign (.var dest) (.cell map [e, i])) (fun _ _ => rfl) rfl rfl fun _ _ _ _ _ _ hmap =>
        .stmt (fun hs => .performed
          (.read (.element helement hmap (he.isPrivate hs) (hi.isPrivate hs)) (hdest hs))) rfl rfl
          (by simp [StmtKind.allocates, Expr.allocates, Expr.allocatesAny, he.allocates, hi.allocates,
            Event.counts]) fun _ _ => rfl

/-- The array and the index are evaluated in this order, and then the element is written. -/
theorem traces_writeElement (array : Value) (hbase : Evaluates s base first)
    (hindex : Evaluates s index second) {value : Expr} {fresh : Bool} (hvalue : s.Lowered fresh value) :
    Traces s (writeElement array base index value)
      (first.events ++ (second.events ++ [.write (.element array) (first.held || second.held || fresh)]))
      fun _ => True :=
  (traces_elementType array).andThen fun element helement => Traces.bind hbase fun e he =>
    Traces.bind hindex fun i hi => .access (fun _ => element.mapName) _
      (fun map => .assign (.cell map [e, i]) value) (fun _ _ => rfl) rfl rfl fun _ _ _ _ _ _ hmap =>
        .stmt (fun hs => .performed
          (.write (.element helement hmap (he.isPrivate hs) (hi.isPrivate hs)) (hvalue.isPrivate hs))) rfl rfl
          (by simp [StmtKind.allocates, Expr.allocates, Expr.allocatesAny, he.allocates, hi.allocates,
            hvalue.allocates, Event.counts]) fun _ _ => rfl

/-- The length of an array is a field that the heap model adds. -/
theorem traces_readLength (array : Value) (hbase : Evaluates s base first) (hdest : s.Owns dest) :
    Traces s (readLength array base dest) (first.events ++ owned first.held) fun _ => True :=
  (traces_elementType array).andThen fun element _ => (Traces.arrayClass element).andThen
    fun _ harrays => traces_readHidden hbase (harrays ▸ .arrayLength element) hdest

/-- The tag of an object is a field that the heap model adds. -/
theorem traces_readTag {object : Expr} {held : Bool} (hobject : s.Lowered held object) :
    Traces s (readTag object) (owned held) (s.Lowered false) :=
  Traces.program fun _ ht => (Traces.freshTemp _ _).andThen fun _ htemp =>
    (traces_readHidden (.pure hobject) (ht.program.typeField ▸ .tag) htemp).before fun _ _ => .pure (.var htemp)

/-- Writing a tag is no effect of the program. It needs a whole reference that is not fresh. -/
theorem traces_writeTag {object : Expr} (hobject : s.Lowered false object) (ty : Ty) :
    Traces s (writeTag object ty) [] fun _ => True :=
  Traces.program fun t ht => Traces.andThen (P := s.Lowered false) (.pure hobject) fun e he =>
    show Traces s _ (owned false) fun _ => True from
      .access (fun _ => t.program.typeField.mapName) _ (fun map => .assign (.cell map [e]) (.tag ty))
        (fun _ _ => rfl) rfl rfl fun _ _ _ _ hp hq hmap => .own rfl rfl
          (fun hs => StmtKind.internal_write
            ⟨t.program.typeField, (hp.trans hq).hidden (ht.program.typeField ▸ .tag), hmap⟩
            (he.isPrivate hs) (Expr.private_lit _))
          (by simp [StmtKind.allocates, Expr.allocates, Expr.allocatesAny, he.allocates, Expr.tag])
          fun _ => rfl

/-- The length of a string is a field that the heap model adds. -/
theorem traces_stringLength {object : Expr} {held : Bool} (hobject : s.Lowered held object)
    (hdest : s.Owns dest) : Traces s (do
      let length ← request (Heap.stringLength object)
      emitHere (.assign (.var dest) length)) (owned held) fun _ => True := by
  rw [stringLength_eq]
  exact .access (fun p => FieldSig.mapName ⟨p.config.stringClass, p.config.lengthFieldName, .int⟩)
    (fun p => .map [.named p.config.stringClass] .int)
    (fun map => .assign (.var dest) (.cell map [object])) (fun _ _ => readStringLength_eq ..) (by simp)
    (by simp) fun p _ _ _ _ hq hmap => .own rfl rfl
      (fun hs => StmtKind.internal_read (hdest hs) ⟨_, hq.hidden .stringLength, hmap⟩ (hobject.isPrivate hs))
      (by simp [StmtKind.allocates, Expr.allocates, Expr.allocatesAny, hobject.allocates]) fun _ => rfl

/-! ### Calls and returns -/

/-- The value that is returned is stored in the result, and the path ends. -/
theorem traces_returnValue {value : Lower Expr} (hvalue : Evaluates s value first) :
    Traces s (returnValue value) (first.events ++ (owned first.held ++ [.finish .leave])) fun _ => True := by
  refine Traces.draft fun t ht => ?_
  cases hresult : t.draft.result with
  | none => exact .fail _ rfl
  | some result =>
    have hrole (hs : s.Proper) : result.role = .result := ((ht.proper hs).result result hresult).1
    refine Traces.bind hvalue fun e he => Traces.bind (P := fun _ => True) ?_ fun _ _ => .returnVoid
    exact traces_assignOwn (fun hs => by simp [hrole hs]) he fun hs => by
      cases e <;> simp [StmtKind.fresh?, hrole hs]

/-- Arguments are evaluated one after another. -/
theorem traces_mapM {args : List (Lower Expr)} {traces : List Trace}
    (h : List.Forall₂ (Evaluates s) args traces) :
    Traces s (args.mapM id) (Trace.all traces).events (s.LoweredAll (Trace.all traces).held) := by
  induction h with
  | nil => exact .pure ⟨rfl, fun _ _ h => nomatch h⟩
  | @cons arg first args rest harg _ ih =>
    rw [List.mapM_cons]
    refine Traces.bind harg fun e he => ih.before fun es hes => .pure ⟨?_, fun hs => ?_⟩
    · simp [Expr.allocatesAny, he.allocates, hes.allocates, Trace.all]
    · exact List.forall_mem_cons.mpr ⟨he.isPrivate hs, hes.isPrivate hs⟩

/-- The arguments of a call are evaluated first, and then its receiver. -/
theorem traces_arguments {base : Option (Lower Expr)} {args : List (Lower Expr)} {first : Option Trace}
    {traces : List Trace} (hbase : Option.Rel (Evaluates s) base first)
    (hargs : List.Forall₂ (Evaluates s) args traces) :
    Traces s (arguments base args) ((Trace.all traces).events ++ (Trace.orEmpty first).events)
      (s.LoweredAll ((Trace.all traces).held || (Trace.orEmpty first).held)) :=
  (traces_mapM hargs).bind fun es hes => by
    cases hbase with
    | none => exact .pure ⟨by simp [hes.allocates, Trace.orEmpty, Trace.empty], hes.isPrivate⟩
    | some hbase =>
      refine Traces.before hbase fun e he => .pure ⟨?_, fun hs => ?_⟩
      · simp [Expr.allocatesAny, he.allocates, hes.allocates, Trace.orEmpty, Bool.or_comm]
      · exact List.forall_mem_cons.mpr ⟨he.isPrivate hs, hes.isPrivate hs⟩

variable {call : Call (Lower Expr)} {source : Call Trace}

/-- The receiver of a call, where there is one. -/
theorem evaluates_receiver (h : call.Rel (Evaluates s) source) :
    Evaluates s (receiver call) (Trace.orEmpty source.base) :=
  h.receiver (fun fault _ hfault => Traces.fail fault hfault) .empty

/-- The argument of a call, where there is just one. -/
theorem evaluates_onlyArgument (h : call.Rel (Evaluates s) source) :
    Evaluates s (onlyArgument call) (Trace.all source.args) :=
  h.onlyArgument (fun fault _ hfault => Traces.fail fault hfault) Trace.all fun a => by simp [Trace.all]

/-- An assertion evaluates its argument. It is refused where it should have a result. -/
theorem traces_assertion (h : call.Rel (Evaluates s) source) (dest : Option Expr) :
    Traces s (assertion call dest)
      ((Trace.all source.args).events ++ owned (Trace.all source.args).held) fun _ => True := by
  unfold assertion
  split
  · exact .fail _ rfl
  · exact Traces.bind (evaluates_onlyArgument h) fun _ he => traces_assert he

/-- The events of a matched call are those of the operands that its lowering evaluates, and its own. A query
needs a variable for its answer. -/
theorem traces_idiom (h : call.Rel (Evaluates s) source) (kind : IdiomKind) {dest : Option Var}
    (hdest : ∀ v ∈ dest, s.Owns v) (hquery : kind.isQuery = true → dest.isSome = true) :
    Traces s (idiom kind call (dest.map .var)) (kind.events call.method (Trace.orEmpty source.base)
      (Trace.all source.args) dest.isSome) fun _ => True := by
  have hbase := evaluates_receiver h
  have harg := evaluates_onlyArgument h
  cases kind with
  | assertion => exact traces_assertion h _
  | precondition => exact traces_assertion h _
  | stringLength =>
    cases dest with
    | none => exact .pure trivial
    | some dest => exact Traces.bind hbase fun e he => traces_stringLength he (hdest dest rfl)
  | exit =>
    have hreport : Traces s (report .info .control s!"{call.method} ends the path")
        [.note (.halted call.method)] fun _ => True := .report (fun _ _ => rfl) fun _ => rfl
    exact hreport.bind fun _ _ => .halt
  | testFailure =>
    refine Traces.draft fun t _ => ?_
    cases Const.zero? t.draft.body.method.result with
    | none => exact .returnVoid
    | some zero => exact traces_returnValue (.pure (.lit _))
  | isAssignableFrom =>
    obtain ⟨v, rfl⟩ := Option.isSome_iff_exists.mp (hquery rfl)
    exact Traces.bind hbase fun e he => Traces.bind harg fun e' he' =>
      traces_assignOwn (hdest v rfl) (he'.binary he) fun _ => rfl
  | getClass =>
    obtain ⟨v, rfl⟩ := Option.isSome_iff_exists.mp (hquery rfl)
    exact Traces.bind hbase fun e he => (traces_readTag he).before fun tag htag =>
      traces_assignVar (hdest v rfl) htag
  | cast =>
    obtain ⟨v, rfl⟩ := Option.isSome_iff_exists.mp (hquery rfl)
    exact Traces.bind hbase fun e he => Traces.bind harg fun e' he' =>
      (traces_readTag he').bind fun tag htag =>
        Traces.bind (P := fun _ => True) (traces_assert (htag.binary he)) fun _ _ =>
          traces_assignVar (hdest v rfl) he'
  | isInstance =>
    obtain ⟨v, rfl⟩ := Option.isSome_iff_exists.mp (hquery rfl)
    exact Traces.bind hbase fun e he => Traces.bind harg fun e' he' =>
      (traces_readTag he').bind fun tag htag =>
        traces_assignOwn (hdest v rfl) (htag.binary he) fun _ => rfl

section Statements

variable {held : Bool} {args : List Expr} {dest : Option Var} {kind : CallKind} {method : MethodSig}

/-- A call statement shows its call. -/
theorem shows_call {p : Program} {location : Location} {callee : Callee}
    (hcallee : p.Calls kind method callee) (hargs : s.LoweredAll held args)
    (hdest : ∀ v ∈ dest, s.Owns v) : s.Shows p location [.call kind method dest.isSome held]
      [⟨location, .call callee args (dest.map .var)⟩] := by
  have hallocates : (StmtKind.call callee args (dest.map .var)).allocates = held := by
    cases dest <;> simp [StmtKind.allocates, Expr.allocates, hargs.allocates]
  refine .stmt (fun hs => .performed (.call hcallee (hargs.isPrivate hs) fun v hv => hdest v hv hs)) ?_ ?_
    (by simp [hallocates, Event.counts]) fun _ _ => rfl
  · cases hcallee with
    | resolved hkind => simp [Stmt.resolved?, Event.resolved?, hkind]
    | indirect hkind => simp [Stmt.resolved?, Event.resolved?, hkind]
  · cases hcallee with
    | resolved hkind => simp [Stmt.indirect?, Stmt.callee?, Event.indirect?, hkind]
    | indirect hkind => simp [Stmt.indirect?, Stmt.callee?, Event.indirect?, hkind]

/-- The state after a method was asked for. -/
def resolved (t : LoweringState) (method : MethodSig) : LoweringState :=
  { t with program := (t.program.resolve method).2 }

/-- Asking for a method tells that it was asked for. -/
theorem told_resolved (t : LoweringState) (method : MethodSig) :
    t.Told [.resolved method] (resolved t method) := by
  refine ⟨(List.append_nil _).symm, fun m hm => (Table.mem_values_intern hm).imp_right fun hm => ?_⟩
  exact ⟨_, List.mem_singleton_self _, by rw [hm]⟩

/-- Asking for a method appends nothing. -/
theorem emits_resolved (t : LoweringState) (method : MethodSig) : Emits t [] none (resolved t method) :=
  .of_continues (.of_grows (t.program.grows_resolve method) (t.program.standing_resolve method)) rfl rfl rfl
    rfl

/-- A method is asked for, and then called. -/
theorem traces_callStmt (hkind : kind ≠ .dynamic) (hargs : s.LoweredAll held args)
    (hdest : ∀ v ∈ dest, s.Owns v) : Traces s (do
      let id ← resolve method
      emitHere (.call (.method id method.text) args (dest.map .var)))
      [.note (.resolved method), .call kind method dest.isSome held] fun _ => True where
  yields t _ := by
    have hid : (resolved t method).program.methods.find? method.text = some (t.program.resolve method).1 :=
      Table.find?_intern_self ..
    refine (yields_resolve (Q := fun out fin id u => out = [] ∧ fin = none ∧
      id = (t.program.resolve method).1 ∧ u = resolved t method) ⟨rfl, rfl, rfl, rfl⟩).bind
      fun _ _ id u _ hu => ?_
    obtain ⟨rfl, rfl, rfl, rfl⟩ := hu
    refine yields_emitHere fun _ _ => ⟨rfl, ⟨told_resolved t method, fun _ => rfl, ?_⟩, trivial⟩
    exact (LoweringState.Shows.note _).append (shows_call (.resolved hkind hid) hargs hdest)
  fails t e u _ hrun := by
    have hemit : emitHere (.call (.method (t.program.resolve method).1 method.text) args (dest.map .var))
        (resolved t method) = .error e u := hrun
    have hresolved := emits_resolved t method
    refine ⟨[.note (.resolved method)], List.prefix_append _ _, ?_, fun hready => ?_⟩
    · exact (told_resolved t method).trans hresolved ((Quiet.emitHere _).told_error hemit)
    · exact (emitHere_refuses (hresolved.ready hready) hemit).after hresolved
  requests t _ := Relation.ReflTransGen.head (.resolve t.program method) (Quiet.emitHere (.call
    (.method (t.program.resolve method).1 method.text) args (dest.map .var)) (resolved t method)).requests

end Statements

section Calls

variable {call : Call (Lower Expr)} {source : Call Trace} {dest : Option Var}

/-- A call that no idiom matches evaluates its arguments, and its receiver if it has one. -/
theorem traces_resolvedCall (h : call.Rel (Evaluates s) source) (hkind : call.kind ≠ .dynamic)
    (hdest : ∀ v ∈ dest, s.Owns v) {base : Trace}
    (hbase : base = if call.kind.hasReceiver then Trace.orEmpty source.base else .empty) :
    Traces s (resolvedCall call (dest.map .var)) ((Trace.all source.args).events ++ base.events ++
      [.note (.resolved call.method),
        .call call.kind call.method dest.isSome ((Trace.all source.args).held || base.held)])
      fun _ => True := by
  have hcall (first : Option (Lower Expr)) (trace : Option Trace)
      (hfirst : Option.Rel (Evaluates s) first trace) : Traces s (callMethod first call (dest.map .var))
        ((Trace.all source.args).events ++ (Trace.orEmpty trace).events ++
          [.note (.resolved call.method), .call call.kind call.method dest.isSome
            ((Trace.all source.args).held || (Trace.orEmpty trace).held)]) fun _ => True :=
    (traces_arguments hfirst h.args).bind fun _ hargs => traces_callStmt hkind hargs hdest
  rw [resolvedCall_eq]
  by_cases hreceiver : call.kind.hasReceiver
  · rw [if_pos hreceiver] at hbase ⊢
    subst hbase
    exact hcall _ (some _) (.some (evaluates_receiver h))
  · rw [if_neg hreceiver] at hbase ⊢
    subst hbase
    exact hcall none none .none

/-- An indirect call is reported before its operands are lowered, and appended after them. -/
theorem traces_indirectCall (h : call.Rel (Evaluates s) source) (hkind : call.kind = .dynamic)
    (hdest : ∀ v ∈ dest, s.Owns v) : Traces s (indirectCall call (dest.map .var))
      (.note (.indirect call.method.text) :: ((Trace.all source.args).events ++
        (Trace.orEmpty source.base).events ++ [.call call.kind call.method dest.isSome
          ((Trace.all source.args).held || (Trace.orEmpty source.base).held)])) fun _ => True := by
  have hcall : Traces s (callUnknown call (dest.map .var)) ((Trace.all source.args).events ++
      (Trace.orEmpty source.base).events ++ [.call call.kind call.method dest.isSome
        ((Trace.all source.args).held || (Trace.orEmpty source.base).held)]) fun _ => True :=
    (traces_arguments h.base h.args).bind fun _ hargs => .emitHere rfl rfl fun _ _ =>
      shows_call (.indirect hkind) hargs hdest
  rw [indirectCall_eq]
  refine Traces.program fun t ht => ?_
  by_cases hstrict : t.program.config.strictUnsupported
  · rw [if_pos hstrict]
    exact .fail _ rfl
  · rw [if_neg hstrict]
    have hreport : Traces s (report .warning .call
        s!"unsound: indirect invocation of {call.method.text} treated as opaque call")
        [.note (.indirect call.method.text)] fun _ => True :=
      .report (fun _ _ => rfl) fun hs => absurd (ht.program.config ▸ hs) hstrict
    exact hreport.bind fun _ _ => hcall

/-- A call has the events of the operands that it evaluates, and of its idiom or its call statement. -/
theorem traces_call (h : call.Rel (Evaluates s) source) (dest : Option Var) (hdest : ∀ v ∈ dest, s.Owns v) :
    Traces s (Lower.call call (dest.map .var)) (source.events s.program.idioms dest.isSome)
      fun _ => True := by
  unfold Lower.call Call.events
  rw [← h.kind, ← h.method]
  by_cases hkind : call.kind = .dynamic
  · simp only [hkind, if_true]
    rw [← hkind]
    exact traces_indirectCall h hkind hdest
  · simp only [hkind, if_false]
    refine Traces.program fun t ht => ?_
    rw [ht.program.idioms, Option.isSome_map]
    cases hlookup : Idiom.lookup s.program.idioms ⟨call.method, dest.isSome⟩ with
    | none => exact traces_resolvedCall h hkind hdest rfl
    | some kind => exact traces_idiom h kind hdest (Idiom.hasResult_of_lookup hlookup)

end Calls

/-! ### Operands -/

/-- What the draft may lack is found in it, or the instruction is refused. -/
theorem traces_found (find : Draft → Option Var) (fault : Fault) (hfault : fault.isRefusal = true)
    (hfind : ∀ d v, find d = some v → v ∈ d.variables) {step : Draft → Lower Var}
    (hstep : ∀ d, step d = (find d).elim (fail fault) pure) : Traces s (draft >>= step) [] s.Owns :=
  Traces.draft fun t ht => by
    rw [hstep]
    cases hv : find t.draft with
    | none => exact .fail fault hfault
    | some v => exact .pure fun hs => (ht.proper hs).role_ne_global (hfind t.draft v hv)

/-- A local that is declared is a variable of the lowering. -/
theorem traces_localVar (slot : Nat) : Traces s (localVar slot) [] s.Owns :=
  traces_found (·.locals[slot]?) (.undeclaredLocal slot) rfl
    (fun d v hv => by simp [Draft.variables, Array.mem_of_getElem? hv]) fun d => by
      cases d.locals[slot]? <;> rfl

/-- A parameter that is declared is a variable of the lowering. -/
theorem traces_paramVar (index : Nat) : Traces s (paramVar index) [] s.Owns :=
  traces_found (·.params[index]?) (.parameterOutOfRange index) rfl
    (fun d v hv => by simp [Draft.variables, Array.mem_of_getElem? hv]) fun d => by
      cases d.params[index]? <;> rfl

/-- The receiver of a method that has one is a variable of the lowering. -/
theorem traces_receiverVar : Traces s receiverVar [] s.Owns :=
  traces_found Draft.receiver .receiverInStatic rfl
    (fun d v hv => by simp [Draft.variables, hv]) fun d => by cases d.receiver <;> rfl

/-- What is evaluated into a fresh variable. -/
theorem evaluates_intoTemp (ty : Ty) {evaluate : Var → Lower Unit} {events : List Event}
    (h : ∀ temp, s.Owns temp → Traces s (evaluate temp) events fun _ => True) :
    Evaluates s (intoTemp ty evaluate) ⟨events, false⟩ :=
  (Traces.freshTemp _ _).andThen fun temp htemp => (h temp htemp).before fun _ _ => .pure (.var htemp)

mutual

/-- Lowering an operand does its events, and its expression is one for an operand of the body. -/
theorem operand_traces : ∀ v : Value, Evaluates s (operand v) (v.trace s.program.idioms)
  | .slot index => (traces_localVar index).andThen fun _ h => .pure (.var h)
  | .const _ => Traces.pure (.lit _)
  | .unary _ v => Traces.before (operand_traces v) fun _ h => .pure ⟨h.allocates, h.isPrivate⟩
  | .binary _ v w => Traces.bind (operand_traces v) fun _ h => Traces.before (operand_traces w) fun _ h' =>
    .pure (h.binary h')
  | .cast _ v => operand_traces v
  | .instanceOf ty v => Traces.bind (operand_traces v) fun _ h => (traces_readTag h).before fun _ htag =>
    .pure (htag.binary (.tag ty))
  | .length v => evaluates_intoTemp _ fun _ htemp => traces_readLength v (operand_traces v) htemp
  | .new _ => Traces.pure (.alloc _)
  | .newMultiArray .. => Traces.pure (.alloc _)
  | .newArray .. => Traces.pure (.alloc _)
  | .field v field => (traces_typeOf _).andThen fun _ _ => evaluates_intoTemp _ fun _ htemp =>
    traces_readField (operand_traces v) field htemp
  | .staticField field => (traces_typeOf _).andThen fun _ _ => evaluates_intoTemp _ fun _ htemp =>
    traces_readStatic field htemp
  | .element v w => (traces_typeOf _).andThen fun _ _ => evaluates_intoTemp _ fun _ htemp =>
    traces_readElement v (operand_traces v) (operand_traces w) htemp
  | .call _ _ base args => evaluates_intoTemp _ fun temp htemp =>
    traces_call ⟨rfl, rfl, operand?_traces base, operands_traces args⟩ (some temp)
      (by simpa using htemp)
  | .parameter index _ => (traces_paramVar index).andThen fun _ h => .pure (.var h)
  | .receiver _ => traces_receiverVar.andThen fun _ h => .pure (.var h)
  | .caughtException ty => (Traces.caughtException ty).andThen fun _ h => .pure (.var h)

/-- The operands of a list, one by one. -/
theorem operands_traces : ∀ vs : List Value,
    List.Forall₂ (Evaluates s) (operands vs) (Value.traces s.program.idioms vs)
  | [] => .nil
  | v :: rest => .cons (operand_traces v) (operands_traces rest)

/-- An operand that may be absent. -/
theorem operand?_traces : ∀ v : Option Value,
    Option.Rel (Evaluates s) (operand? v) (Value.trace? s.program.idioms v)
  | none => .none
  | some v => .some (operand_traces v)

end

/-- The operands of a call, prepared for lowering, do their events. -/
theorem prepare_traces (source : Call Value) :
    (prepare source).Rel (Evaluates s) ⟨source.kind, source.method,
      Value.trace? s.program.idioms source.base, Value.traces s.program.idioms source.args⟩ :=
  ⟨rfl, rfl, operand?_traces source.base, operands_traces source.args⟩

/-! ### Operations -/

/-- The target of an assignment is a local that is declared. -/
theorem traces_targetVar (place : Value) : Traces s (targetVar place) [] s.Owns := by
  cases place with
  | slot index => exact traces_localVar index
  | _ => exact .fail _ rfl

/-- Reading a heap location does the events of the operand that it is. -/
theorem traces_readHeap {place : Value} (hplace : place.isHeapLocation = true) {dest : Var}
    (hdest : s.Owns dest) : Traces s (readHeap place dest) (place.events s.program.idioms) fun _ => True := by
  cases place with
  | field v field => exact traces_readField (operand_traces v) field hdest
  | staticField field => exact traces_readStatic field hdest
  | element v w => exact traces_readElement v (operand_traces v) (operand_traces w) hdest
  | _ => cases hplace

/-- Writing a heap location evaluates the operands in it first. -/
theorem traces_writeHeap {place : Value} (hplace : place.isHeapLocation = true) {value : Expr} {fresh : Bool}
    (hvalue : s.Lowered fresh value) :
    Traces s (writeHeap place value) (place.writeEvents s.program.idioms fresh) fun _ => True := by
  cases place with
  | field v field => exact traces_writeField (operand_traces v) field hvalue
  | staticField field => exact traces_writeStatic field hvalue
  | element v w => exact traces_writeElement v (operand_traces v) (operand_traces w) hvalue
  | _ => cases hplace

/-- The length of a new array is read, and assumed to be the value of its size, which is evaluated first. -/
theorem traces_initLength (element : Ty) (size : Value) {dest : Var} (hdest : s.Owns dest) :
    Traces s (do
      let size ← operand size
      let length ← freshTemp "$arrSizeLocal" .int
      let arrays ← arrayClass element
      readField (pure (.var dest)) arrays.lengthField length
      emitHere (.assume (.binary .eq (.var length) size)))
      (size.events s.program.idioms ++ owned size.holds) fun _ => True :=
  Traces.bind (operand_traces size) fun requested hrequested => (Traces.freshTemp _ _).andThen
    fun length hlength => (Traces.arrayClass element).andThen fun arrays harrays => by
      have hread : Traces s (readField (pure (.var dest)) arrays.lengthField length) [] fun _ => True :=
        traces_readHidden (.pure (.var hdest)) (harrays ▸ .arrayLength element) hlength
      have hcompare : s.Lowered size.holds (.binary .eq (.var length) requested) :=
        (LoweringState.Lowered.var hlength).binary hrequested
      exact hread.andThen fun _ _ => traces_assume hcompare

/-- The result of a call is stored after the call. -/
theorem traces_assignCall (place : Value) (source : Call Value) :
    Traces s (assignCall place (prepare source)) ((Op.assign place (.call source.kind source.method
      source.base source.args)).events s.program.idioms) fun _ => True := by
  have hcall {dest : Var} (hdest : s.Owns dest) : Traces s (call (prepare source) (some (.var dest)))
      ((Value.call source.kind source.method source.base source.args).events s.program.idioms)
      fun _ => True := traces_call (prepare_traces source) (some dest) (by simpa using hdest)
  unfold assignCall Op.events
  by_cases hplace : place.isHeapLocation
  · simp only [hplace, if_true]
    exact (Traces.freshTemp _ _).andThen fun temp htemp => (hcall htemp).bind fun _ _ =>
      traces_writeHeap hplace (.var htemp)
  · simp only [hplace]
    exact (traces_targetVar place).andThen fun dest hdest => hcall hdest

/-- What is assigned to a local goes there at once, or it is evaluated first; a new object gets its type tag
then. -/
theorem traces_assignLocal {dest : Var} (hdest : s.Owns dest) (source : Value)
    (hcall : ∀ kind method base args, source ≠ .call kind method base args) :
    Traces s (assignLocal dest source) (source.assignEvents s.program.idioms) fun _ => True := by
  have htag (ty : Ty) : Traces s (writeTag (.var dest) ty) [] fun _ => True := traces_writeTag (.var hdest) ty
  have hvalue {v : Value} {events : List Event}
      (hinit : Traces s (initObject dest v) events fun _ => True) : Traces s (do
        let value ← operand v
        emitHere (.assign (.var dest) value)
        initObject dest v)
        (v.events s.program.idioms ++ (stored v.holds ++ events)) fun _ => True :=
    Traces.bind (operand_traces v) fun value hvalue => (traces_assignVar hdest hvalue).bind fun _ _ => hinit
  have hother {v : Value} (hinit : Traces s (initObject dest v) [] fun _ => True) : Traces s (do
        let value ← operand v
        emitHere (.assign (.var dest) value)
        initObject dest v) (v.events s.program.idioms ++ stored v.holds) fun _ => True := by
    simpa using hvalue hinit
  unfold assignLocal
  cases source with
  | field | staticField | element => exact traces_readHeap rfl hdest
  | length v => exact traces_readLength v (operand_traces v) hdest
  | call kind method base args => exact absurd rfl (hcall kind method base args)
  | new ty | newMultiArray ty sizes => exact hother ((htag _).andThen fun _ _ => .pure trivial)
  | newArray element size =>
    exact hvalue (v := .newArray element size)
      ((htag _).andThen fun _ _ => traces_initLength element size hdest)
  | _ => exact hother (.pure trivial)

/-- The assignment of an operand that is no call. -/
theorem traces_assignOperand (place source : Value)
    (hcall : ∀ kind method base args, source ≠ .call kind method base args) :
    Traces s (assignOperand place source) ((Op.assign place source).events s.program.idioms)
      fun _ => True := by
  rw [assignOperand_eq, Op.events]
  by_cases hplace : place.isHeapLocation
  · rw [if_pos hplace, if_pos hplace]
    exact Traces.bind (operand_traces source) fun _ hvalue => traces_writeHeap hplace hvalue
  · rw [if_neg hplace, if_neg hplace]
    exact (traces_targetVar place).andThen fun _ hdest => traces_assignLocal hdest source hcall

/-- An assignment does its events; two heap locations are refused. -/
theorem traces_assign (place source : Value) :
    Traces s (assign place source) ((Op.assign place source).events s.program.idioms) fun _ => True := by
  by_cases hboth : place.isHeapLocation && source.isHeapLocation
  · rw [assign_eq_fail hboth]
    exact .fail _ rfl
  · rw [assign_eq hboth]
    cases source with
    | call kind method base args => exact traces_assignCall place ⟨kind, method, base, args⟩
    | _ => exact traces_assignOperand place _ fun _ _ _ _ h => nomatch h

/-- A monitor evaluates its lock, and is reported. -/
theorem traces_monitor (name : String) (lock : Value) : Traces s (monitor name lock)
    (lock.events s.program.idioms ++ [.note (.monitor name lock)]) fun _ => True :=
  Traces.bind (operand_traces lock) fun _ _ => Traces.usesMonitors.andThen fun _ _ =>
    .report (fun _ _ => rfl) fun _ => rfl

/-- Lowering an operation that does not jump does its events. -/
theorem operation_traces (index : Nat) (op : Op Nat) (h : op.jumpTargets = []) :
    Traces s (operation index op) (op.events s.program.idioms) fun _ => True := by
  cases op with
  | assign place source => exact traces_assign place source
  | identity slot source =>
    exact (traces_localVar slot).andThen fun _ hdest => Traces.bind (operand_traces source)
      fun _ hvalue => traces_assignVar hdest hvalue
  | invoke source => exact traces_call (prepare_traces source) none nofun
  | ret value => exact traces_returnValue (operand_traces value)
  | retVoid => exact .returnVoid
  | monitorEnter lock => exact traces_monitor _ lock
  | monitorExit lock => exact traces_monitor _ lock
  | nop => exact .pure trivial
  | breakpoint => exact .pure trivial
  | subroutineReturn _ => exact .fail _ rfl
  | throw _ => exact .fail _ rfl
  | _ => simp [Op.jumpTargets] at h

end Lower

end GuardedFlow
