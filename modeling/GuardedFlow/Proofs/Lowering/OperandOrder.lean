import Mathlib.Data.List.Forall2
import Mathlib.Data.Option.Basic
import GuardedFlow.Proofs.Lowering.Stages

/-!
# Operands are lowered in order

The statements for an operand are orderly at every stage of the lowering of an instruction, they make the
accesses of the operand, and its expression may be read as long as the path goes on. `operand_delivers`
states this for operands of any depth. Calls get their destination from outside; they set it, or they end
the path.
-/

namespace GuardedFlow.Lower

variable {p : Program} {body : Body} {first : Nat} {dest : Option Var} {c : Stage}

/-- The lowering of an operand with the given accesses: its expression may be read. -/
def Delivers (p : Program) (body : Body) (first : Nat) (m : Lower Expr) (accesses : List Access) : Prop :=
  ∀ c, Acts p body first none c m accesses Stage.Held

/-- A given expression that is held makes no access. -/
theorem Delivers.pure {e : Expr} (h : ∀ c : Stage, c.Held e) : Delivers p body first (pure e) [] :=
  fun c => .pure (h c)

/-- A failure makes no access. -/
theorem Delivers.fail (fault : Fault) {accesses : List Access} (h : fault.isConflict = false) :
    Delivers p body first (fail fault) accesses := fun _ => .fail fault h

/-! ### Accesses -/

section Accesses

variable {base index : Lower Expr} {accesses accesses' : List Access} {v : Var} {value : Expr}

/-- The type of an operand is found without an access. -/
theorem acts_typeOf (value : Value) :
    Acts p body first dest c (typeOf value) [] fun _ ty => body.typeOf? value = some ty :=
  .silent fun hc => yields_typeOf fun _ hty => ⟨rfl, hc.numbered, hc.within.body ▸ hty⟩

/-- The type of the elements of an array is found without an access. -/
theorem acts_elementType (array : Value) : Acts p body first dest c (elementType array) []
    fun _ element => body.typeOf? array = some (.array element) ∧ body.elementType? array = some element :=
  .silent fun hc => yields_elementType fun element helement => by
    rw [hc.within.body] at helement
    exact ⟨rfl, hc.numbered, helement, by rw [Body.elementType?, helement]⟩

/-- A read sets its destination. -/
theorem acts_read {session : Location → Session Stmt} (region : Region) (place : Var → Expr)
    (hsession : ∀ location q, session location q =
      (do return (⟨location, .assign (.var v) (place (← Session.global region.name region.ty))⟩ : Stmt)) q)
    (hplace : ∀ c', c.Reaches none c' → c'.state.openBlock.isSome → ∀ q map, q.Has region map →
      region.Slot q c'.Reads (place map))
    (hv : c.Awaits first (some v)) (hty : v.role = .temporary → v.ty = region.valueTy) :
    Acts p body first (some v) c (do emit (← request (session (← location)))) [⟨.read, region⟩]
      fun c' _ => c'.Settled (some v) :=
  .access (fun map => .assign (.var v) (place map)) hsession
    (fun c' hc' ho q map hmap => .read ((hv.mono hc').writable v rfl) (hplace c' hc' ho q map hmap) hty)
    (fun _ _ _ _ hw _ => List.mem_singleton.mp hw ▸ rfl)
    fun _ _ _ hw => Option.some.inj hw ▸ List.mem_singleton_self _

/-- A write sets no variable of the body. -/
theorem acts_write {session : Location → Session Stmt} (region : Region) (place : Var → Expr)
    (hsession : ∀ location q, session location q =
      (do return (⟨location, .assign (place (← Session.global region.name region.ty)) value⟩ : Stmt)) q)
    (hplace : ∀ c', c.Reaches none c' → c'.state.openBlock.isSome → ∀ q map, q.Has region map →
      region.Slot q c'.Reads (place map))
    (hdefs : ∀ location map, (⟨location, .assign (place map) value⟩ : Stmt).defs = [map])
    (hvalue : c.Held value) :
    Acts p body first none c (do emit (← request (session (← location)))) [⟨.write, region⟩]
      fun _ _ => True :=
  (Acts.access (fun map => .assign (place map) value) hsession
    (fun c' hc' ho q map hmap => .write (hplace c' hc' ho q map hmap) (hvalue.mono hc' ho))
    (fun location map hrole w hw htemp => by
      rw [hdefs, List.mem_singleton] at hw
      simp [hw, hrole] at htemp)
    (by simp)).mono fun _ _ _ _ => trivial

/-- The accesses of the base come before the read of the field. -/
theorem acts_readField (hbase : Delivers p body first base accesses) (field : FieldSig)
    (hv : c.Awaits first (some v)) (hty : v.role = .temporary → v.ty = field.ty) :
    Acts p body first (some v) c (readField base field v) (accesses ++ [⟨.read, .field field⟩])
      fun c' _ => c'.Settled (some v) :=
  (hbase c).bind fun _ e hc₁ he => acts_read (.field field) (.cell · [e]) (fun _ _ => rfl)
    (fun _ hc₂ ho _ _ hmap => .field hmap (he.mono hc₂ ho)) (hv.mono hc₁) hty

/-- The accesses of the base come before the write of the field. -/
theorem acts_writeField (hbase : Delivers p body first base accesses) (field : FieldSig)
    (hvalue : c.Held value) :
    Acts p body first none c (writeField base field value) (accesses ++ [⟨.write, .field field⟩])
      fun _ _ => True :=
  (hbase c).bind fun _ e hc₁ he => acts_write (.field field) (.cell · [e]) (fun _ _ => rfl)
    (fun _ hc₂ ho _ _ hmap => .field hmap (he.mono hc₂ ho)) (fun _ _ => rfl) (hvalue.mono hc₁)

/-- The read of a static field is the only access. -/
theorem acts_readStatic (field : FieldSig) (hv : c.Awaits first (some v))
    (hty : v.role = .temporary → v.ty = field.ty) :
    Acts p body first (some v) c (readStatic field v) [⟨.read, .static field⟩]
      fun c' _ => c'.Settled (some v) :=
  acts_read (.static field) .var (fun _ _ => rfl) (fun _ _ _ _ _ hmap => .static hmap) hv hty

/-- The write of a static field is the only access. -/
theorem acts_writeStatic (field : FieldSig) (hvalue : c.Held value) :
    Acts p body first none c (writeStatic field value) [⟨.write, .static field⟩] fun _ _ => True :=
  acts_write (.static field) .var (fun _ _ => rfl) (fun _ _ _ _ _ hmap => .static hmap) (fun _ _ => rfl) hvalue

/-- The accesses of the array and of the index come before the read of the element. -/
theorem acts_readElement (array : Value) (hbase : Delivers p body first base accesses)
    (hindex : Delivers p body first index accesses') (hv : c.Awaits first (some v))
    (hty : ∀ element, body.typeOf? array = some (.array element) → v.role = .temporary → v.ty = element) :
    Acts p body first (some v) c (readElement array base index v)
      (accesses ++ (accesses' ++ (body.elementType? array).toList.map fun entry =>
        ⟨.read, .elements entry⟩)) fun c' _ => c'.Settled (some v) :=
  (acts_elementType array).after fun _ element hc₁ ⟨htypeOf, helement⟩ => by
    rw [helement]
    exact (hbase _).bind fun _ e hc₂ he => (hindex _).bind fun _ i hc₃ hi =>
      acts_read (.elements element) (.cell · [e, i]) (fun _ _ => rfl)
        (fun _ hc₄ ho _ _ hmap => .elements hmap ((he.mono hc₃).mono hc₄ ho) (hi.mono hc₄ ho))
        (((hv.mono hc₁).mono hc₂).mono hc₃) (hty element htypeOf)

/-- The accesses of the array and of the index come before the write of the element. -/
theorem acts_writeElement (array : Value) (hbase : Delivers p body first base accesses)
    (hindex : Delivers p body first index accesses') (hvalue : c.Held value) :
    Acts p body first none c (writeElement array base index value)
      (accesses ++ (accesses' ++ (body.elementType? array).toList.map fun entry =>
        ⟨.write, .elements entry⟩)) fun _ _ => True :=
  (acts_elementType array).after fun _ element hc₁ ⟨_, helement⟩ => by
    rw [helement]
    exact (hbase _).bind fun _ e hc₂ he => (hindex _).bind fun _ i hc₃ hi =>
      acts_write (.elements element) (.cell · [e, i]) (fun _ _ => rfl)
        (fun _ hc₄ ho _ _ hmap => .elements hmap ((he.mono hc₃).mono hc₄ ho) (hi.mono hc₄ ho))
        (fun _ _ => rfl) (((hvalue.mono hc₁).mono hc₂).mono hc₃)

/-- The length of an array is an integer. -/
theorem acts_readLength (hp : p.Sound) (array : Value) (hbase : Delivers p body first base accesses)
    (hv : c.Awaits first (some v)) (hty : v.role = .temporary → v.ty = .int) :
    Acts p body first (some v) c (readLength array base v)
      (accesses ++ (body.elementType? array).toList.map fun entry => ⟨.read, p.lengthRegion entry⟩)
      fun c' _ => c'.Settled (some v) :=
  (acts_elementType array).after fun _ element hc₁ ⟨_, helement⟩ => by
    rw [helement]
    refine (Acts.arrayClass element).after fun _ arrays hc₂ harrays => ?_
    subst harrays
    exact acts_readField hbase _ ((hv.mono hc₁).mono hc₂) fun hrole =>
      (hty hrole).trans (hp.lengths element).symm

/-- A temporary that was set may be read. -/
theorem acts_intoTemp (stem : String) (ty : Ty) {evaluate : Var → Lower Unit}
    (h : ∀ c' temp, c.Reaches none c' → c'.Awaits first (some temp) →
      (temp.role = .temporary → temp.ty = ty) →
      Acts p body first (some temp) c' (evaluate temp) accesses fun c'' _ => c''.Settled (some temp)) :
    Acts p body first dest c (do
      let temp ← freshTemp stem ty
      evaluate temp
      return .var temp) accesses Stage.Held :=
  .temp stem ty fun c' temp hc' hrole hty hawaits =>
    (h c' temp hc' hawaits fun _ => hty).map fun _ _ hc'' hset =>
      hset.held (hc''.continues.variables (hawaits.writable temp rfl).declared) (by simp [hrole])

/-- A field of an object that is at hand. -/
theorem acts_readFieldOf {object : Expr} (hobject : c.Held object) (field : FieldSig)
    (hv : c.Awaits first (some v)) (hty : v.role = .temporary → v.ty = field.ty) :
    Acts p body first (some v) c (readField (Pure.pure object) field v) [⟨.read, .field field⟩]
      fun c' _ => c'.Settled (some v) := by
  rw [readField, pure_bind]
  exact acts_read (.field field) (.cell · [object]) (fun _ _ => rfl)
    (fun _ hc' ho _ _ hmap => .field hmap (hobject.mono hc' ho)) hv hty

/-- The tag is read into a temporary, which holds it from then on. -/
theorem acts_readTag {object : Expr} (hobject : c.Held object) :
    Acts p body first none c (readTag object) [⟨.read, p.tagRegion⟩] Stage.Held :=
  Acts.program fun hgrows => by
    rw [Program.tagRegion, ← hgrows.typeField]
    exact acts_intoTemp _ _ fun c' temp hc' hawaits hty => acts_readFieldOf (hobject.mono hc') _ hawaits hty

/-- The write of a tag is the only access. -/
theorem acts_writeTag {object : Expr} (hobject : c.Held object) (ty : Ty) :
    Acts p body first none c (writeTag object ty) [⟨.write, p.tagRegion⟩] fun _ _ => True :=
  Acts.program fun hgrows => by
    rw [Program.tagRegion, ← hgrows.typeField, writeField, pure_bind]
    exact acts_write (.field c.state.program.typeField) (.cell · [object]) (fun _ _ => rfl)
      (fun _ hc' ho _ _ hmap => .field hmap (hobject.mono hc' ho)) (fun _ _ => rfl) (c.held_lit _)

end Accesses

/-! ### Calls and returns -/

/-- An assignment to a variable sets it. -/
theorem acts_set {v : Var} {value : Expr} (hv : c.Awaits first (some v)) (hvalue : c.Held value) :
    Acts p body first (some v) c (emitHere (.assign (.var v) value)) []
      fun c' _ => c'.Settled (some v) :=
  (Acts.emitHere [v] (fun ho => .assign (hv.writable v rfl) (hvalue ho)) (fun _ => rfl)
    fun _ hw _ => List.mem_singleton.mp hw ▸ rfl).mono
      fun _ _ _ hset _ _ hw => hset _ (Option.some.inj hw ▸ List.mem_singleton_self _)

/-- Asserting a held condition makes no access. -/
theorem acts_assert {condition : Expr} (h : c.Held condition) :
    Acts p body first none c (emitHere (.assert condition)) [] fun _ _ => True :=
  (Acts.emitHere [] (fun ho => .assert (h ho)) (fun _ => rfl) (by simp)).mono fun _ _ _ _ => trivial

/-- Assuming a held condition makes no access. -/
theorem acts_assume {condition : Expr} (h : c.Held condition) :
    Acts p body first none c (emitHere (.assume condition)) [] fun _ _ => True :=
  (Acts.emitHere [] (fun ho => .assume (h ho)) (fun _ => rfl) (by simp)).mono fun _ _ _ _ => trivial

/-- A call statement sets the destination of the call. -/
theorem acts_callee (callee : Callee) {args : List Expr} (hargs : ∀ e ∈ args, c.Held e)
    (hdest : c.Awaits first dest) :
    Acts p body first dest c (emitHere (.call callee args (dest.map .var))) []
      fun c' _ => c'.Settled dest :=
  (Acts.emitHere dest.toList
    (fun ho => .call (fun e he => hargs e he ho) hdest.writable)
    (fun _ => by cases dest <;> rfl) fun _ hv _ => Option.mem_toList.mp hv).mono
      fun _ _ _ hset _ v hv => hset v (Option.mem_toList.mpr hv)

variable {accesses : List Access}

/-- The result is set, and then the path ends. -/
theorem acts_returnValue {value : Lower Expr} (hvalue : Delivers p body first value accesses) :
    Acts p body first none c (returnValue value) accesses fun c' _ => c'.state.openBlock = none :=
  Acts.draft fun hproper => by
    cases hresult : c.state.draft.result with
    | none => exact .fail _ rfl
    | some result =>
      obtain ⟨hrole, hused⟩ := hproper.result result hresult
      have hawaits : c.Awaits first (some result) := by
        refine ⟨fun v hv => ?_, fun v hv => ?_⟩ <;> cases hv
        · exact ⟨by simp [Draft.variables, hresult], .inr (.inl hrole), by simp [hrole]⟩
        · exact hused
      rw [← List.append_nil accesses]
      refine (hvalue c).bind fun c₁ e hc₁ he => ?_
      have hassign : Acts p body first none c₁ (emitHere (.assign (.var result) e)) [] fun _ _ => True :=
        (Acts.emitHere [result] (fun ho => .assign ((hawaits.mono hc₁).writable result rfl) (he ho)) (fun _ => rfl)
          (by simp [hrole])).mono fun _ _ _ _ => trivial
      exact hassign.after fun _ _ _ _ => .returnVoid

/-- Arguments are evaluated one after another, and all of them may be read afterwards. -/
theorem acts_mapM {args : List (Lower Expr)} {accesses : List (List Access)}
    (h : List.Forall₂ (Delivers p body first) args accesses) :
    Acts p body first none c (args.mapM id) accesses.flatten fun c' es => ∀ e ∈ es, c'.Held e := by
  induction h generalizing c with
  | nil => exact .pure (by simp)
  | cons harg _ ih =>
    rw [List.mapM_cons, List.flatten_cons]
    exact (harg c).bind fun c₁ e hc₁ he => ih.map fun c₂ es hc₂ hes =>
      List.forall_mem_cons.mpr ⟨he.mono hc₂, hes⟩

/-- The accesses of the arguments come before those of the receiver, and all operands are held in the end. -/
theorem acts_arguments {base : Option (Lower Expr)} {args : List (Lower Expr)}
    {first? : Option (List Access)} {accesses : List (List Access)}
    (hbase : Option.Rel (Delivers p body first) base first?)
    (hargs : List.Forall₂ (Delivers p body first) args accesses) :
    Acts p body first none c (arguments base args) (accesses.flatten ++ first?.getD [])
      fun c' es => ∀ e ∈ es, c'.Held e := by
  refine (acts_mapM hargs).bind fun c₁ es hc₁ hes => ?_
  cases hbase with
  | none => exact .pure hes
  | some hbase =>
    exact (hbase c₁).map fun c₂ e hc₂ he => List.forall_mem_cons.mpr ⟨he, fun e' he' => (hes e' he').mono hc₂⟩

variable {call : Call (Lower Expr)} {source : Call (List Access)}

/-- The accesses of the receiver, where there is one. -/
theorem delivers_receiver (h : call.Rel (Delivers p body first) source) :
    Delivers p body first (receiver call) (source.base.getD []) :=
  h.receiver (fun fault _ hfault => Delivers.fail fault (Fault.isConflict_of_isRefusal hfault)) []

/-- The accesses of the argument, where there is just one. -/
theorem delivers_onlyArgument (h : call.Rel (Delivers p body first) source) :
    Delivers p body first (onlyArgument call) source.args.flatten :=
  h.onlyArgument (fun fault _ hfault => Delivers.fail fault (Fault.isConflict_of_isRefusal hfault))
    List.flatten fun _ => by simp

/-- The answer is stored without an access. -/
theorem acts_answer {value : Expr} (hdest : c.Awaits first dest) (hvalue : c.Held value) :
    Acts p body first dest c (answer (dest.map .var) value) [] fun c' _ => c'.Settled dest := by
  cases dest with
  | none => exact .fail _ rfl
  | some v => exact acts_set hdest hvalue

/-- The length of a string is stored without a check of the type of its destination. -/
theorem acts_stringLength {v : Var} {base : Expr} (hv : c.Awaits first (some v)) (hbase : c.Held base) :
    Acts p body first (some v) c (do
      let length ← request (Heap.stringLength base)
      emitHere (.assign (.var v) length)) [⟨.query, p.stringRegion⟩]
      fun c' _ => c'.Settled (some v) := by
  have hrequest : Acts p body first none c (request (Heap.stringLength base)) [] fun c' e =>
      ∃ map, map.role = .global ∧ c'.state.program.Has p.stringRegion map ∧ e = .cell map [base] := by
    refine Acts.request p.stringRegion (fun map => Expr.cell map [base]) fun q hq => ?_
    rw [Program.stringRegion, ← hq.config]
    rfl
  refine hrequest.after ?_
  rintro c₁ _ hc₁ ⟨map, -, hmap, rfl⟩
  refine Acts.location.after fun c₂ l hc₂ _ => ?_
  have hslot (ho : c₂.state.openBlock.isSome) :
      p.stringRegion.Slot c₂.state.program c₂.Reads (.cell map [base]) :=
    .field (hc₂.continues.program.has hmap) ((hbase.mono hc₁).mono hc₂ ho)
  exact (Acts.emit (fun ho => .access (.query (((hv.mono hc₁).mono hc₂).writable v rfl) (hslot ho)) .nil)
    fun _ hw _ => List.mem_singleton.mp hw ▸ rfl).mono
      fun _ _ _ hset _ _ hw => hset _ (Option.some.inj hw ▸ List.mem_singleton_self _)

/-- A matched call evaluates the operands that it has a use for, and sets its destination or ends the
path. -/
theorem acts_idiom (h : call.Rel (Delivers p body first) source) (kind : IdiomKind)
    (hdest : c.Awaits first dest) : Acts p body first dest c (idiom kind call (dest.map .var))
      (kind.accesses p (source.base.getD []) source.args.flatten dest.isSome)
      fun c' _ => c'.Settled dest := by
  have hbase := delivers_receiver h
  have harg := delivers_onlyArgument h
  have hassert : Acts p body first dest c (assertion call (dest.map .var)) source.args.flatten
      fun c' _ => c'.Settled dest := by
    cases dest with
    | some v => exact .fail _ rfl
    | none =>
      rw [← List.append_nil source.args.flatten]
      exact (harg c).bind fun c₁ e hc₁ he => (acts_assert he).mono fun _ _ _ _ _ _ hv => nomatch hv
  cases kind with
  | assertion => exact hassert
  | precondition => exact hassert
  | stringLength =>
    cases dest with
    | none => exact .pure fun _ _ hv => nomatch hv
    | some v => exact (hbase c).bind fun c₁ e hc₁ he => acts_stringLength (hdest.mono hc₁) he
  -- an exit and a failure end the path, and no statement follows that could read the destination
  | exit =>
    exact (Acts.report _ _ _).after fun _ _ _ _ => Acts.halt.mono fun c' _ _ hclosed =>
      c'.settled_of_closed hclosed dest
  | testFailure =>
    refine Acts.draft fun _ => ?_
    cases Const.zero? c.state.draft.body.method.result with
    | none => exact Acts.returnVoid.mono fun c' _ _ hclosed => c'.settled_of_closed hclosed dest
    | some zero =>
      exact (acts_returnValue (.pure fun c' => c'.held_lit _)).weaken.mono fun c' _ _ hclosed =>
        c'.settled_of_closed hclosed dest
  | isAssignableFrom =>
    rw [IdiomKind.accesses, ← List.append_nil (_ ++ _), List.append_assoc]
    exact (hbase c).bind fun c₁ e hc₁ he => (harg c₁).bind fun c₂ e' hc₂ he' =>
      acts_answer ((hdest.mono hc₁).mono hc₂) (he'.binary (he.mono hc₂) _)
  | getClass =>
    rw [IdiomKind.accesses, ← List.append_nil (_ ++ _), List.append_assoc]
    exact (hbase c).bind fun c₁ e hc₁ he => (acts_readTag he).bind fun c₂ tag hc₂ htag =>
      acts_answer ((hdest.mono hc₁).mono hc₂) htag
  | cast =>
    rw [IdiomKind.accesses, ← List.append_nil [_]]
    exact (hbase c).bind fun c₁ e hc₁ he => (harg c₁).bind fun c₂ e' hc₂ he' =>
      (acts_readTag he').bind fun c₃ tag hc₃ htag =>
        (acts_assert (htag.binary ((he.mono hc₂).mono hc₃) _)).after fun c₄ _ hc₄ _ =>
          acts_answer ((((hdest.mono hc₁).mono hc₂).mono hc₃).mono hc₄) ((he'.mono hc₃).mono hc₄)
  | isInstance =>
    rw [IdiomKind.accesses, ← List.append_nil [_]]
    exact (hbase c).bind fun c₁ e hc₁ he => (harg c₁).bind fun c₂ e' hc₂ he' =>
      (acts_readTag he').bind fun c₃ tag hc₃ htag =>
        acts_answer (((hdest.mono hc₁).mono hc₂).mono hc₃) (htag.binary ((he.mono hc₂).mono hc₃) _)

/-- A call makes the accesses of its arguments and of its receiver, and then settles its result. -/
theorem acts_resolvedCall (h : call.Rel (Delivers p body first) source) (hdest : c.Awaits first dest) :
    Acts p body first dest c (resolvedCall call (dest.map .var))
      (source.args.flatten ++ if call.kind.hasReceiver then source.base.getD [] else [])
      fun c' _ => c'.Settled dest := by
  have hcall (base : Option (Lower Expr)) (first? : Option (List Access))
      (hbase : Option.Rel (Delivers p body first) base first?) : Acts p body first dest c
        (callMethod base call (dest.map .var))
        (source.args.flatten ++ first?.getD []) fun c' _ => c'.Settled dest := by
    rw [← List.append_nil (_ ++ _)]
    exact (acts_arguments hbase h.args).bind fun c₁ args hc₁ hargs => (Acts.resolve _).after
      fun c₂ id hc₂ _ => acts_callee _ (fun e he => (hargs e he).mono hc₂) ((hdest.mono hc₁).mono hc₂)
  rw [resolvedCall_eq]
  by_cases hreceiver : call.kind.hasReceiver
  · simp only [hreceiver, if_true]
    exact hcall _ (some (source.base.getD [])) (.some (delivers_receiver h))
  · simp only [hreceiver, Bool.false_eq_true, if_false]
    exact hcall none none .none

/-- An opaque call makes the accesses of its arguments and of its base, and then settles its result. -/
theorem acts_indirectCall (h : call.Rel (Delivers p body first) source) (hdest : c.Awaits first dest) :
    Acts p body first dest c (indirectCall call (dest.map .var))
      (source.args.flatten ++ source.base.getD []) fun c' _ => c'.Settled dest := by
  rw [indirectCall_eq]
  refine Acts.program fun _ => ?_
  split
  · exact .fail _ rfl
  · refine (Acts.report _ _ _).after fun c₁ _ hc₁ _ => ?_
    rw [← List.append_nil (_ ++ _)]
    exact (acts_arguments h.base h.args).bind fun c₂ args hc₂ hargs =>
      acts_callee _ hargs ((hdest.mono hc₁).mono hc₂)

/-- A call evaluates its operands, and sets its destination or ends the path. -/
theorem acts_call (h : call.Rel (Delivers p body first) source) (hdest : c.Awaits first dest) :
    Acts p body first dest c (Lower.call call (dest.map .var)) (source.accesses p dest.isSome)
      fun c' _ => c'.Settled dest := by
  unfold Lower.call Call.accesses
  rw [← h.kind, ← h.method]
  by_cases hkind : call.kind = .dynamic
  · simp only [hkind, if_true]
    exact acts_indirectCall h hdest
  · simp only [hkind, if_false]
    refine Acts.program fun hgrows => ?_
    rw [hgrows.idioms, Option.isSome_map]
    cases Idiom.lookup p.idioms ⟨call.method, dest.isSome⟩ with
    | none => exact acts_resolvedCall h hdest
    | some kind => exact acts_idiom h kind hdest

/-! ### Operands -/

/-- A local may always be read and set. -/
theorem acts_localVar (slot : Nat) : Acts p body first dest c (localVar slot) [] fun c' v =>
    c'.Held (.var v) ∧ c'.Awaits first (some v) ∧ v.role = .declared :=
  Acts.draft fun hproper => by
    cases hslot : c.state.draft.locals[slot]? with
    | none => exact .fail _ rfl
    | some v =>
      obtain ⟨hrole, hused⟩ := hproper.locals v (Array.mem_of_getElem? hslot)
      have hdeclared : v ∈ c.state.draft.variables := by
        simp [Draft.variables, Array.mem_of_getElem? hslot]
      refine .pure ⟨Stage.held_var hdeclared (by simp [hrole]) (by simp [hrole]), ?_, hrole⟩
      refine ⟨fun w hw => ?_, fun w hw => ?_⟩ <;> cases hw
      · exact ⟨hdeclared, .inl hrole, by simp [hrole]⟩
      · exact hused

/-- A parameter is held from the start. -/
theorem acts_paramVar (index : Nat) :
    Acts p body first dest c (paramVar index) [] fun c' v => c'.Held (.var v) :=
  Acts.draft fun hproper => by
    cases hindex : c.state.draft.params[index]? with
    | none => exact .fail _ rfl
    | some v =>
      obtain ⟨⟨_, hrole⟩, -⟩ := hproper.params v (Array.mem_of_getElem? hindex)
      exact .pure (Stage.held_var (by simp [Draft.variables, Array.mem_of_getElem? hindex])
        (by simp [hrole]) (by simp [hrole]))

/-- The receiver is held from the start. -/
theorem acts_receiverVar : Acts p body first dest c receiverVar [] fun c' v => c'.Held (.var v) :=
  Acts.draft fun hproper => by
    cases hreceiver : c.state.draft.receiver with
    | none => exact .fail _ rfl
    | some v =>
      obtain ⟨hrole, -⟩ := hproper.receiver v hreceiver
      exact .pure (Stage.held_var (by simp [Draft.variables, hreceiver]) (by simp [hrole]) (by simp [hrole]))

mutual

/-- The statements for an operand are orderly and make its accesses, and its expression may be read. -/
theorem operand_delivers (hp : p.Sound) : ∀ v : Value, Delivers p body first (operand v) (v.accesses p body)
  | .slot index, _ => (acts_localVar index).map fun _ _ _ h => h.1
  | .const _, c => .pure (c.held_lit _)
  | .unary _ v, c => (operand_delivers hp v c).map fun _ _ _ h => h
  | .binary _ v w, c => (operand_delivers hp v c).bind fun _ _ _ h => (operand_delivers hp w _).map
      fun _ _ hc' h' => (h.mono hc').binary h' _
  | .cast _ v, c => operand_delivers hp v c
  | .instanceOf _ v, c => (operand_delivers hp v c).bind fun _ _ _ h => (acts_readTag h).map
      fun c' _ _ htag => htag.binary (c'.held_lit _) _
  | .length v, _ => acts_intoTemp _ _ fun _ _ _ hawaits hty =>
      acts_readLength hp v (operand_delivers hp v) hawaits hty
  | .new _, c => .pure (c.held_alloc _)
  | .newArray _ _, c => .pure (c.held_alloc _)
  | .newMultiArray _ _, c => .pure (c.held_alloc _)
  | .field v field, _ => (acts_typeOf _).after fun _ ty _ hty => acts_intoTemp _ _
      fun _ _ _ hawaits htemp => acts_readField (operand_delivers hp v) field hawaits
        fun hrole => (htemp hrole).trans (Option.some.inj (hty.symm.trans rfl))
  | .staticField field, _ => (acts_typeOf _).after fun _ ty _ hty => acts_intoTemp _ _
      fun _ _ _ hawaits htemp => acts_readStatic field hawaits
        fun hrole => (htemp hrole).trans (Option.some.inj (hty.symm.trans rfl))
  | .element v w, _ => (acts_typeOf _).after fun _ ty _ hty => acts_intoTemp _ _
      fun _ _ _ hawaits htemp => acts_readElement v (operand_delivers hp v) (operand_delivers hp w) hawaits
        fun element helement hrole => (htemp hrole).trans <| by
          rw [Body.typeOf?, helement] at hty
          exact (Option.some.inj hty).symm
  | .call kind method base args, _ => acts_intoTemp _ _ fun _ _ _ hawaits _ =>
      acts_call ⟨rfl, rfl, operand?_delivers hp base, operands_deliver hp args⟩ hawaits
  | .parameter index _, _ => (acts_paramVar index).map fun _ _ _ h => h
  | .receiver _, _ => acts_receiverVar.map fun _ _ _ h => h
  | .caughtException ty, _ => (Acts.caughtException ty).map fun _ _ _ h => h

/-- The operands of a list deliver their accesses, one by one. -/
theorem operands_deliver (hp : p.Sound) : ∀ vs : List Value,
    List.Forall₂ (Delivers p body first) (operands vs) (Value.accessesAll p body vs)
  | [] => .nil
  | v :: rest => .cons (operand_delivers hp v) (operands_deliver hp rest)

/-- An operand that may be absent delivers its accesses. -/
theorem operand?_delivers (hp : p.Sound) : ∀ v : Option Value,
    Option.Rel (Delivers p body first) (operand? v) (Value.accesses? p body v)
  | none => .none
  | some v => .some (operand_delivers hp v)

end

/-- The operands of a call, prepared for lowering, are lowered in order. -/
theorem prepare_delivers (hp : p.Sound) (source : Call Value) :
    (prepare source).Rel (Delivers p body first) ⟨source.kind, source.method,
      Value.accesses? p body source.base, Value.accessesAll p body source.args⟩ :=
  ⟨rfl, rfl, operand?_delivers hp source.base, operands_deliver hp source.args⟩

end GuardedFlow.Lower
