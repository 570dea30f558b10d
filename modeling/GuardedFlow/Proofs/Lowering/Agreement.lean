import GuardedFlow.Proofs.Lowering.Accesses
import GuardedFlow.Proofs.Lowering.SideBySide

/-!
# Lowerings of one body agree

Every step of a lowering runs alike from akin states, by the structure of operands and instructions. So
the lowerings of one body in two akin programs end with the same error, or with graphs that are the
same up to numbers, unless a global clashes.
-/

namespace GuardedFlow

namespace Lower

variable {α : Type} {sides : Sides}

/-! ### Accesses -/

/-- Both runs find the same type. -/
theorem alike_typeOf (value : Value) : Alike sides asIs (typeOf value) (typeOf value) :=
  .found (·.body.typeOf? value) (.unknownType value) rfl
    (fun d => by cases d.body.typeOf? value <;> rfl)
    fun d e h => by rw [Draft.body_of_renumber h]

/-- Both runs find the same type of elements. -/
theorem alike_elementType (array : Value) : Alike sides asIs (elementType array) (elementType array) :=
  (alike_typeOf array).bind fun ty ty' hty => by
    obtain rfl : ty = ty' := hty
    cases ty with
    | array element => exact .pure rfl
    | prim _ | named _ | map _ _ => exact .fail _ rfl

/-- An access is made alike if its statement is the same up to numbers. -/
theorem alike_access {session session' : Location → Session Stmt} (name : String) (ty : Ty)
    (answer answer' : Var → StmtKind)
    (hsession : ∀ location p, session location p =
      (do return (⟨location, answer (← Session.global name ty)⟩ : Stmt)) p)
    (hsession' : ∀ location p, session' location p =
      (do return (⟨location, answer' (← Session.global name ty)⟩ : Stmt)) p)
    (h : ∀ v w, v.renumber sides.number = w.renumber sides.number' →
      (answer v).renumber sides.number = (answer' w).renumber sides.number') :
    Alike sides asIs (do emit (← request (session (← location))))
      (do emit (← request (session' (← location)))) :=
  Alike.location.bind fun l l' hl => by
    obtain rfl : l = l' := hl
    have hrequest : Alike sides Stmt.renumber (request (session l)) (request (session' l)) := by
      refine .request (fun _ => name) (fun _ => ty) (fun v => ⟨l, answer v⟩) (fun v => ⟨l, answer' v⟩)
        (hsession l) (hsession' l) fun v w hvw => ?_
      simp only [Stmt.renumber, h v w hvw]
    exact hrequest.bind fun _ _ => .emit

section

variable {base base' index : Lower Expr} {dest dest' : Var} {value value' : Expr}

/-- Both runs read the same field of the same object. -/
theorem alike_readField (hbase : Alike sides Expr.renumber base base') (field : FieldSig)
    (hdest : dest.renumber sides.number = dest'.renumber sides.number') :
    Alike sides asIs (readField base field dest) (readField base' field dest') :=
  hbase.bind fun e e' he => alike_access field.mapName _
    (fun map => .assign (.var dest) (.cell map [e])) (fun map => .assign (.var dest') (.cell map [e']))
    (fun _ _ => rfl) (fun _ _ => rfl) fun v w hvw => by
      simp only [StmtKind.renumber, Expr.renumber, Expr.renumberAll, hdest, he, hvw]

/-- Both runs write the same value to the same field. -/
theorem alike_writeField (hbase : Alike sides Expr.renumber base base') (field : FieldSig)
    (hvalue : value.renumber sides.number = value'.renumber sides.number') :
    Alike sides asIs (writeField base field value) (writeField base' field value') :=
  hbase.bind fun e e' he => alike_access field.mapName _
    (fun map => .assign (.cell map [e]) value) (fun map => .assign (.cell map [e']) value')
    (fun _ _ => rfl) (fun _ _ => rfl) fun v w hvw => by
      simp only [StmtKind.renumber, Expr.renumber, Expr.renumberAll, hvalue, he, hvw]

/-- Both runs read the same static field. -/
theorem alike_readStatic (field : FieldSig)
    (hdest : dest.renumber sides.number = dest'.renumber sides.number') :
    Alike sides asIs (readStatic field dest) (readStatic field dest') :=
  alike_access field.qualifiedName _ (fun v => .assign (.var dest) (.var v))
    (fun v => .assign (.var dest') (.var v)) (fun _ _ => rfl) (fun _ _ => rfl) fun v w hvw => by
      simp only [StmtKind.renumber, Expr.renumber, hdest, hvw]

/-- Both runs write the same value to the same static field. -/
theorem alike_writeStatic (field : FieldSig)
    (hvalue : value.renumber sides.number = value'.renumber sides.number') :
    Alike sides asIs (writeStatic field value) (writeStatic field value') :=
  alike_access field.qualifiedName _ (fun v => .assign (.var v) value)
    (fun v => .assign (.var v) value') (fun _ _ => rfl) (fun _ _ => rfl) fun v w hvw => by
      simp only [StmtKind.renumber, Expr.renumber, hvalue, hvw]

/-- Both runs read the same element. -/
theorem alike_readElement (array : Value) (hbase : Alike sides Expr.renumber base base)
    (hindex : Alike sides Expr.renumber index index)
    (hdest : dest.renumber sides.number = dest'.renumber sides.number') :
    Alike sides asIs (readElement array base index dest) (readElement array base index dest') :=
  (alike_elementType array).bind fun element element' helement => by
    obtain rfl : element = element' := helement
    exact hbase.bind fun e e' he => hindex.bind fun k k' hk => alike_access element.mapName _
      (fun map => .assign (.var dest) (.cell map [e, k]))
      (fun map => .assign (.var dest') (.cell map [e', k'])) (fun _ _ => rfl) (fun _ _ => rfl)
      fun v w hvw => by
        simp only [StmtKind.renumber, Expr.renumber, Expr.renumberAll, hdest, he, hk, hvw]

/-- Both runs write the same value to the same element. -/
theorem alike_writeElement (array : Value) (hbase : Alike sides Expr.renumber base base)
    (hindex : Alike sides Expr.renumber index index)
    (hvalue : value.renumber sides.number = value'.renumber sides.number') :
    Alike sides asIs (writeElement array base index value) (writeElement array base index value') :=
  (alike_elementType array).bind fun element element' helement => by
    obtain rfl : element = element' := helement
    exact hbase.bind fun e e' he => hindex.bind fun k k' hk => alike_access element.mapName _
      (fun map => .assign (.cell map [e, k]) value)
      (fun map => .assign (.cell map [e', k']) value') (fun _ _ => rfl) (fun _ _ => rfl)
      fun v w hvw => by
        simp only [StmtKind.renumber, Expr.renumber, Expr.renumberAll, hvalue, he, hk, hvw]

/-- Both runs read the same length of an array. -/
theorem alike_readLength (array : Value) (hbase : Alike sides Expr.renumber base base)
    (hdest : dest.renumber sides.number = dest'.renumber sides.number') :
    Alike sides asIs (readLength array base dest) (readLength array base dest') :=
  (alike_elementType array).bind fun element element' helement => by
    obtain rfl : element = element' := helement
    exact (Alike.arrayClass element).bind fun arrays arrays' harrays => by
      obtain rfl : arrays = arrays' := harrays
      exact alike_readField hbase _ hdest

/-- A variable as an expression. -/
theorem alike_var {v w : Var} (h : v.renumber sides.number = w.renumber sides.number') :
    Alike sides Expr.renumber (pure (.var v)) (pure (.var w)) :=
  .pure (by simp only [Expr.renumber, h])

/-- Both runs read the tag of the same object into temporaries for each other. -/
theorem alike_readTag (h : value.renumber sides.number = value'.renumber sides.number') :
    Alike sides Expr.renumber (readTag value) (readTag value') :=
  Alike.program.bind fun p q hpq => by
    rw [Program.typeField_congr hpq]
    exact (Alike.freshTemp _ _).bind fun v w hvw =>
      (alike_readField (.pure h) _ hvw).bind fun _ _ _ => alike_var hvw

/-- Both runs write the same tag. -/
theorem alike_writeTag (h : value.renumber sides.number = value'.renumber sides.number') (ty : Ty) :
    Alike sides asIs (writeTag value ty) (writeTag value' ty) :=
  Alike.program.bind fun p q hpq => by
    rw [Program.typeField_congr hpq]
    exact alike_writeField (.pure h) _ rfl

end

/-! ### Calls and returns -/

/-- Both runs leave the block that is open. -/
theorem alike_returnVoid : Alike sides asIs returnVoid returnVoid :=
  Alike.currentBlock.bind fun block block' hblock => by
    obtain rfl : block = block' := hblock
    exact (Alike.connect block Flow.sink rfl).bind fun _ _ _ => .setOpen none

/-- Both runs return the same value. -/
theorem alike_returnValue {value value' : Lower Expr} (hvalue : Alike sides Expr.renumber value value') :
    Alike sides asIs (returnValue value) (returnValue value') :=
  Alike.draft.bind fun d e hde => by
    have hresult : d.result.map (Var.renumber sides.number) = e.result.map (Var.renumber sides.number') :=
      show (d.renumber sides.number).result = (e.renumber sides.number').result by rw [hde]
    cases hd : d.result with
    | none =>
      rw [hd] at hresult
      rw [Option.map_eq_none_iff.mp hresult.symm]
      exact .fail _ rfl
    | some v =>
      rw [hd] at hresult
      obtain ⟨w, hw, hvw⟩ := Option.map_eq_some_iff.mp hresult.symm
      rw [hw]
      exact hvalue.bind fun a b hab => (Alike.emitHere (by
        simp only [StmtKind.renumber, Expr.renumber, hab, hvw])).bind fun _ _ _ => alike_returnVoid

/-- A call whose operands are lowered alike. -/
structure AlikeCall (sides : Sides) (call : Call (Lower Expr)) : Prop where
  base : ∀ m ∈ call.base, Alike sides Expr.renumber m m
  args : ∀ m ∈ call.args, Alike sides Expr.renumber m m

/-- Both runs evaluate the same arguments. -/
theorem alike_mapM {args : List (Lower Expr)} (h : ∀ m ∈ args, Alike sides Expr.renumber m m) :
    Alike sides (fun number => List.map (Expr.renumber number)) (args.mapM id) (args.mapM id) := by
  induction args with
  | nil => exact .pure rfl
  | cons arg rest ih =>
    rw [List.mapM_cons]
    refine (h arg List.mem_cons_self).bind fun e e' he =>
      (ih fun m hm => h m (List.mem_cons_of_mem _ hm)).bind fun es es' hes => .pure ?_
    rw [List.map_cons, List.map_cons, he, hes]

/-- Both runs evaluate the same arguments and the same receiver. -/
theorem alike_arguments {base : Option (Lower Expr)} {args : List (Lower Expr)}
    (hbase : ∀ m ∈ base, Alike sides Expr.renumber m m)
    (hargs : ∀ m ∈ args, Alike sides Expr.renumber m m) :
    Alike sides (fun number => List.map (Expr.renumber number)) (arguments base args)
      (arguments base args) :=
  (alike_mapM hargs).bind fun es es' hes => by
    cases base with
    | none => exact .pure hes
    | some m =>
      refine (hbase m rfl).bind fun e e' he => .pure ?_
      rw [List.map_cons, List.map_cons, he, hes]

variable {call : Call (Lower Expr)} {dest dest' : Option Expr}

/-- Both runs find the receiver, or refuse the call. -/
theorem alike_receiver (h : AlikeCall sides call) :
    Alike sides Expr.renumber (receiver call) (receiver call) := by
  unfold receiver
  cases hbase : call.base with
  | none => exact .fail _ rfl
  | some m => exact h.base m hbase

/-- Both runs find the only argument, or refuse the call. -/
theorem alike_onlyArgument (h : AlikeCall sides call) :
    Alike sides Expr.renumber (onlyArgument call) (onlyArgument call) := by
  have hargs := h.args
  unfold onlyArgument
  rcases hcall : call.args with _ | ⟨arg, _ | ⟨next, rest⟩⟩
  · exact .fail _ rfl
  · rw [hcall] at hargs
    exact hargs arg List.mem_cons_self
  · exact .fail _ rfl

/-- Both runs store the same answer. -/
theorem alike_answer
    (hdest : dest.map (Expr.renumber sides.number) = dest'.map (Expr.renumber sides.number'))
    {e e' : Expr} (h : e.renumber sides.number = e'.renumber sides.number') :
    Alike sides asIs (answer dest e) (answer dest' e') := by
  cases dest with
  | none =>
    rw [Option.map_eq_none_iff.mp hdest.symm]
    exact .fail _ rfl
  | some target =>
    obtain ⟨target', rfl, htarget⟩ := Option.map_eq_some_iff.mp hdest.symm
    exact .emitHere (by simp only [StmtKind.renumber, h, htarget])

/-- Both runs ask for the same length of a string. -/
theorem alike_stringLength {e e' : Expr} (h : e.renumber sides.number = e'.renumber sides.number') :
    Alike sides Expr.renumber (request (Heap.stringLength e)) (request (Heap.stringLength e')) :=
  .request (fun config => FieldSig.mapName ⟨config.stringClass, config.lengthFieldName, .int⟩)
    (fun config => .map [.named config.stringClass] .int) (fun map => .cell map [e])
    (fun map => .cell map [e']) (fun _ => rfl) (fun _ => rfl) fun v w hvw => by
      simp only [Expr.renumber, Expr.renumberAll, h, hvw]

/-- A question about the tag of an object. -/
theorem alike_subtype {e e' k k' : Expr} (he : e.renumber sides.number = e'.renumber sides.number')
    (hk : k.renumber sides.number = k'.renumber sides.number') :
    (Expr.binary .subtype e k).renumber sides.number =
      (Expr.binary .subtype e' k').renumber sides.number' := by
  simp only [Expr.renumber, he, hk]

/-- Both runs assert the same condition. -/
theorem alike_assert {e e' : Expr} (h : e.renumber sides.number = e'.renumber sides.number') :
    Alike sides asIs (emitHere (.assert e)) (emitHere (.assert e')) :=
  .emitHere (by simp only [StmtKind.renumber, h])

/-- Both runs lower a matched call alike. -/
theorem alike_idiom (h : AlikeCall sides call) (kind : IdiomKind)
    (hdest : dest.map (Expr.renumber sides.number) = dest'.map (Expr.renumber sides.number')) :
    Alike sides asIs (idiom kind call dest) (idiom kind call dest') := by
  have hsome : dest.isSome = dest'.isSome := by
    simpa only [Option.isSome_map] using congrArg Option.isSome hdest
  have hassert : Alike sides asIs (assertion call dest) (assertion call dest') := by
    unfold assertion
    rw [hsome]
    split
    · exact .fail _ rfl
    · exact (alike_onlyArgument h).bind fun _ _ => alike_assert
  cases kind with
  | assertion => exact hassert
  | precondition => exact hassert
  | stringLength =>
    cases dest with
    | none =>
      rw [Option.map_eq_none_iff.mp hdest.symm]
      exact .pure rfl
    | some target =>
      obtain ⟨target', rfl, htarget⟩ := Option.map_eq_some_iff.mp hdest.symm
      refine (alike_receiver h).bind fun e e' he => (alike_stringLength he).bind fun k k' hk => ?_
      exact .emitHere (by simp only [StmtKind.renumber, htarget, hk])
  | exit => exact (Alike.report _ _ _).bind fun _ _ _ => .setOpen none
  | testFailure =>
    refine Alike.draft.bind fun d e hde => ?_
    rw [Draft.body_of_renumber hde]
    cases Const.zero? e.body.method.result with
    | none => exact alike_returnVoid
    | some zero => exact alike_returnValue (.pure rfl)
  | isAssignableFrom =>
    exact (alike_receiver h).bind fun _ _ he => (alike_onlyArgument h).bind fun _ _ hk =>
      alike_answer hdest (alike_subtype hk he)
  | getClass =>
    exact (alike_receiver h).bind fun _ _ he => (alike_readTag he).bind fun _ _ =>
      alike_answer hdest
  | cast =>
    exact (alike_receiver h).bind fun _ _ he => (alike_onlyArgument h).bind fun _ _ hk =>
      (alike_readTag hk).bind fun _ _ htag => (alike_assert (alike_subtype htag he)).bind fun _ _ _ =>
        alike_answer hdest hk
  | isInstance =>
    exact (alike_receiver h).bind fun _ _ he => (alike_onlyArgument h).bind fun _ _ hk =>
      (alike_readTag hk).bind fun _ _ htag => alike_answer hdest (alike_subtype htag he)

/-- Both runs call the same method with the same operands. -/
theorem alike_resolvedCall (h : AlikeCall sides call)
    (hdest : dest.map (Expr.renumber sides.number) = dest'.map (Expr.renumber sides.number')) :
    Alike sides asIs (resolvedCall call dest) (resolvedCall call dest') := by
  have hcall (base : Option (Lower Expr)) (hbase : ∀ m ∈ base, Alike sides Expr.renumber m m) :
      Alike sides asIs (callMethod base call dest) (callMethod base call dest') :=
    (alike_arguments hbase h.args).bind fun es es' hes => (Alike.resolve _).bind fun _ _ _ =>
      .emitHere (by simp only [StmtKind.renumber, Callee.placeless, hdest, hes])
  rw [resolvedCall_eq, resolvedCall_eq]
  by_cases hkind : call.kind.hasReceiver
  · simp only [hkind, if_true]
    refine hcall _ fun m hm => ?_
    cases hm
    exact alike_receiver h
  · simp only [hkind]
    exact hcall none fun m hm => by cases hm

/-- Both runs report an indirect call, or both refuse it. -/
theorem alike_indirectCall (h : AlikeCall sides call)
    (hdest : dest.map (Expr.renumber sides.number) = dest'.map (Expr.renumber sides.number')) :
    Alike sides asIs (indirectCall call dest) (indirectCall call dest') := by
  have hcall : Alike sides asIs (callUnknown call dest) (callUnknown call dest') :=
    (alike_arguments h.base h.args).bind fun es es' hes =>
      .emitHere (by simp only [StmtKind.renumber, hdest, hes])
  rw [indirectCall_eq, indirectCall_eq]
  refine Alike.program.bind fun p q hpq => ?_
  rw [show p.config = q.config from hpq]
  split
  · exact .fail _ rfl
  · exact (Alike.report _ _ _).bind fun _ _ _ => hcall

/-- Both runs find the same idiom for a call, or none. -/
theorem alike_call (h : AlikeCall sides call)
    (hdest : dest.map (Expr.renumber sides.number) = dest'.map (Expr.renumber sides.number')) :
    Alike sides asIs (Lower.call call dest) (Lower.call call dest') := by
  have hsome : dest.isSome = dest'.isSome := by
    simpa only [Option.isSome_map] using congrArg Option.isSome hdest
  unfold Lower.call
  by_cases hkind : call.kind = .dynamic
  · simp only [hkind, if_true]
    exact alike_indirectCall h hdest
  · simp only [hkind, if_false]
    refine Alike.program.bind fun p q hpq => ?_
    rw [Program.idioms_congr hpq, hsome]
    cases Idiom.lookup q.idioms ⟨call.method, dest'.isSome⟩ with
    | none => exact alike_resolvedCall h hdest
    | some kind => exact alike_idiom h kind hdest

/-! ### Operands -/

/-- Both runs find the local of a slot, under their own numbers. -/
theorem alike_localVar (slot : Nat) : Alike sides Var.renumber (localVar slot) (localVar slot) :=
  .found (·.locals[slot]?) (.undeclaredLocal slot) rfl (fun d => by cases d.locals[slot]? <;> rfl)
    fun d e h => by
      rw [← Array.getElem?_map, ← Array.getElem?_map]
      exact congrArg (fun d : Draft => d.locals[slot]?) h

/-- Both runs find the same parameter, under their own numbers. -/
theorem alike_paramVar (index : Nat) : Alike sides Var.renumber (paramVar index) (paramVar index) :=
  .found (·.params[index]?) (.parameterOutOfRange index) rfl (fun d => by cases d.params[index]? <;> rfl)
    fun d e h => by
      rw [← Array.getElem?_map, ← Array.getElem?_map]
      exact congrArg (fun d : Draft => d.params[index]?) h

/-- Both runs find the receiver, under their own numbers. -/
theorem alike_receiverVar : Alike sides Var.renumber receiverVar receiverVar :=
  .found Draft.receiver .receiverInStatic rfl (fun d => by cases d.receiver <;> rfl) fun d e h =>
    show (d.renumber sides.number).receiver = (e.renumber sides.number').receiver by rw [h]

/-- Both runs evaluate into temporaries for each other. -/
theorem alike_intoTemp (ty : Ty) {evaluate : Var → Lower Unit}
    (h : ∀ v w, v.renumber sides.number = w.renumber sides.number' →
      Alike sides asIs (evaluate v) (evaluate w)) :
    Alike sides Expr.renumber (intoTemp ty evaluate) (intoTemp ty evaluate) :=
  (Alike.freshTemp _ _).bind fun v w hvw => (h v w hvw).bind fun _ _ _ => alike_var hvw

/-- A read into a temporary, whose type comes from the declarations. -/
theorem alike_typedTemp (value : Value) {evaluate : Var → Lower Unit}
    (h : ∀ v w, v.renumber sides.number = w.renumber sides.number' →
      Alike sides asIs (evaluate v) (evaluate w)) :
    Alike sides Expr.renumber (typeOf value >>= fun ty => intoTemp ty evaluate)
      (typeOf value >>= fun ty => intoTemp ty evaluate) :=
  (alike_typeOf value).bind fun ty ty' hty => by
    obtain rfl : ty = ty' := hty
    exact alike_intoTemp ty h

/-- A variable that a result goes to. -/
theorem renumber_dest {v w : Var} (h : v.renumber sides.number = w.renumber sides.number') :
    (some (Expr.var v)).map (Expr.renumber sides.number) =
      (some (Expr.var w)).map (Expr.renumber sides.number') := by
  simp only [Option.map_some, Expr.renumber, h]

mutual

/-- Operands are lowered alike. -/
theorem operand_alike : ∀ v : Value, Alike sides Expr.renumber (operand v) (operand v)
  | .slot index => (alike_localVar index).bind fun _ _ => alike_var
  | .const _ => .pure rfl
  | .unary _ v => (operand_alike v).bind fun e e' he => .pure (by simp only [Expr.renumber, he])
  | .binary _ v w => (operand_alike v).bind fun e e' he => (operand_alike w).bind fun k k' hk =>
    .pure (by simp only [Expr.renumber, he, hk])
  | .cast _ v => operand_alike v
  | .instanceOf _ v => (operand_alike v).bind fun _ _ he => (alike_readTag he).bind fun _ _ htag =>
    .pure (alike_subtype htag rfl)
  | .length v => alike_intoTemp _ fun _ _ => alike_readLength v (operand_alike v)
  | .new _ => .pure rfl
  | .newMultiArray .. => .pure rfl
  | .newArray .. => .pure rfl
  | .field v field => alike_typedTemp _ fun _ _ => alike_readField (operand_alike v) field
  | .staticField field => alike_typedTemp _ fun _ _ => alike_readStatic field
  | .element v w => alike_typedTemp _ fun _ _ =>
    alike_readElement v (operand_alike v) (operand_alike w)
  | .call _ _ base args => alike_intoTemp _ fun _ _ hvw =>
    alike_call ⟨operand?_alike base, operands_alike args⟩ (renumber_dest hvw)
  | .parameter index _ => (alike_paramVar index).bind fun _ _ => alike_var
  | .receiver _ => alike_receiverVar.bind fun _ _ => alike_var
  | .caughtException ty => (Alike.caughtException ty).bind fun _ _ => alike_var

/-- The operands of a list, one by one. -/
theorem operands_alike : ∀ vs : List Value, ∀ m ∈ operands vs, Alike sides Expr.renumber m m
  | [], _, h => absurd h List.not_mem_nil
  | v :: rest, m, h => by
    rcases List.mem_cons.mp h with rfl | h
    · exact operand_alike v
    · exact operands_alike rest m h

/-- An operand that may be absent. -/
theorem operand?_alike : ∀ v : Option Value, ∀ m ∈ operand? v, Alike sides Expr.renumber m m
  | none, _, h => by cases h
  | some v, m, h => by
    cases h
    exact operand_alike v

end

/-- The operands of a call are alike in both runs. -/
theorem prepare_alike (source : Call Value) : AlikeCall sides (prepare source) :=
  ⟨operand?_alike source.base, operands_alike source.args⟩

/-! ### Instructions -/

/-- Both runs find the same target of an assignment. -/
theorem alike_targetVar (place : Value) :
    Alike sides Var.renumber (targetVar place) (targetVar place) := by
  cases place with
  | slot index => exact alike_localVar index
  | _ => exact .fail _ rfl

/-- Both runs read the same heap location. -/
theorem alike_readHeap (place : Value) {dest dest' : Var}
    (h : dest.renumber sides.number = dest'.renumber sides.number') :
    Alike sides asIs (readHeap place dest) (readHeap place dest') := by
  cases place with
  | field v field => exact alike_readField (operand_alike v) field h
  | staticField field => exact alike_readStatic field h
  | element v w => exact alike_readElement v (operand_alike v) (operand_alike w) h
  | _ => exact .fail _ rfl

/-- Both runs write to the same heap location. -/
theorem alike_writeHeap (place : Value) {value value' : Expr}
    (h : value.renumber sides.number = value'.renumber sides.number') :
    Alike sides asIs (writeHeap place value) (writeHeap place value') := by
  cases place with
  | field v field => exact alike_writeField (operand_alike v) field h
  | staticField field => exact alike_writeStatic field h
  | element v w => exact alike_writeElement v (operand_alike v) (operand_alike w) h
  | _ => exact .fail _ rfl

/-- Both runs set the same variable to the same value. -/
theorem alike_assignVar {dest dest' : Var}
    (hdest : dest.renumber sides.number = dest'.renumber sides.number') {e e' : Expr}
    (h : e.renumber sides.number = e'.renumber sides.number') :
    Alike sides asIs (emitHere (.assign (.var dest) e)) (emitHere (.assign (.var dest') e')) :=
  .emitHere (by simp only [StmtKind.renumber, Expr.renumber, hdest, h])

/-- Both runs initialize the same object. -/
theorem alike_initObject {dest dest' : Var} (h : dest.renumber sides.number = dest'.renumber sides.number')
    (allocation : Value) : Alike sides asIs (initObject dest allocation) (initObject dest' allocation) := by
  have hdest : (Expr.var dest).renumber sides.number = (Expr.var dest').renumber sides.number' := by
    simp only [Expr.renumber, h]
  unfold initObject
  cases allocation with
  | new ty => exact (alike_writeTag hdest _).bind fun _ _ _ => .pure rfl
  | newMultiArray ty sizes => exact (alike_writeTag hdest _).bind fun _ _ _ => .pure rfl
  | newArray element size =>
    refine (alike_writeTag hdest _).bind fun _ _ _ => (operand_alike size).bind fun e e' he =>
      (Alike.freshTemp _ _).bind fun v w hvw => (Alike.arrayClass _).bind fun arrays arrays' harrays => ?_
    obtain rfl : arrays = arrays' := harrays
    exact (alike_readField (.pure hdest) _ hvw).bind fun _ _ _ =>
      .emitHere (by simp only [StmtKind.renumber, Expr.renumber, he, hvw])
  | _ => exact .pure rfl

/-- Both runs store the result of a call in the same place. -/
theorem alike_assignCall (place : Value) {source : Call (Lower Expr)} (h : AlikeCall sides source) :
    Alike sides asIs (assignCall place source) (assignCall place source) := by
  unfold assignCall
  by_cases hplace : place.isHeapLocation
  · simp only [hplace, if_true]
    exact (Alike.freshTemp _ _).bind fun v w hvw => (alike_call h (renumber_dest hvw)).bind fun _ _ _ =>
      alike_writeHeap place (by simp only [Expr.renumber, hvw])
  · simp only [hplace]
    exact (alike_targetVar place).bind fun v w hvw => alike_call h (renumber_dest hvw)

/-- An operand is assigned alike to a local. -/
theorem alike_assignLocal {dest dest' : Var}
    (h : dest.renumber sides.number = dest'.renumber sides.number') (source : Value) :
    Alike sides asIs (assignLocal dest source) (assignLocal dest' source) := by
  have hother (v : Value) : Alike sides asIs (do
      let value ← operand v
      emitHere (.assign (.var dest) value)
      initObject dest v) (do
      let value ← operand v
      emitHere (.assign (.var dest') value)
      initObject dest' v) :=
    (operand_alike v).bind fun _ _ he => (alike_assignVar h he).bind fun _ _ _ => alike_initObject h v
  unfold assignLocal
  cases source with
  | field v field => exact alike_readHeap (.field v field) h
  | staticField field => exact alike_readHeap (.staticField field) h
  | element v w => exact alike_readHeap (.element v w) h
  | length v => exact alike_readLength v (operand_alike v) h
  | _ => exact hother _

/-- Both runs assign the same operand to the same place. -/
theorem alike_assignOperand (place source : Value) :
    Alike sides asIs (assignOperand place source) (assignOperand place source) := by
  rw [assignOperand_eq]
  by_cases hplace : place.isHeapLocation
  · simp only [hplace, if_true]
    exact (operand_alike source).bind fun _ _ => alike_writeHeap place
  · simp only [hplace]
    exact (alike_targetVar place).bind fun _ _ hvw => alike_assignLocal hvw source

/-- Both runs make the same assignment, or refuse it. -/
theorem alike_assign (place source : Value) :
    Alike sides asIs (assign place source) (assign place source) := by
  by_cases hboth : place.isHeapLocation && source.isHeapLocation
  · rw [assign_eq_fail hboth]
    exact .fail _ rfl
  · rw [assign_eq hboth]
    cases source with
    | call kind method base args => exact alike_assignCall place (prepare_alike ⟨kind, method, base, args⟩)
    | _ => exact alike_assignOperand place _

/-- Both runs accept the target of a jump, or refuse it. -/
theorem alike_checkTarget (target : Nat) : Alike sides asIs (checkTarget target) (checkTarget target) :=
  Alike.draft.bind fun d e hde => by
    rw [Draft.body_of_renumber hde]
    split
    · exact .fail _ rfl
    · exact .pure rfl

/-- Both runs jump to the same block. -/
theorem alike_goto (target : Nat) : Alike sides asIs (goto target) (goto target) :=
  (alike_checkTarget target).bind fun _ _ _ => Alike.currentBlock.bind fun source source' hsource =>
    (Alike.blockAt target).bind fun block block' hblock => by
      obtain rfl : source = source' := hsource
      obtain rfl : block = block' := hblock
      exact (Alike.connect source block rfl).bind fun _ _ _ => .setOpen none

/-- Both runs add the same second edge of a conditional jump. -/
theorem alike_fallThrough (source : BlockId) {c c' : Expr}
    (h : c.renumber sides.number = c'.renumber sides.number') (next : Option Nat) :
    Alike sides asIs (fallThrough source c next) (fallThrough source c' next) := by
  have hnot : Guard.renumber sides.number (some c.not) = Guard.renumber sides.number' (some c'.not) := by
    simp only [Guard.renumber, Option.map_some, Expr.not, Expr.renumber, h]
  cases next with
  | none => exact (Alike.connect source Flow.sink hnot).bind fun _ _ _ => .setOpen none
  | some next =>
    refine (Alike.blockAt next).bind fun rest rest' hrest => ?_
    obtain rfl : rest = rest' := hrest
    exact (Alike.connect source rest hnot).bind fun _ _ _ => .setOpen (some rest)

/-- Both runs go on in the same blocks after a conditional jump. -/
theorem alike_branch (index : Nat) (condition : Value) (target : Nat) :
    Alike sides asIs (branch index condition target) (branch index condition target) := by
  rw [branch_eq]
  refine (alike_checkTarget target).bind fun _ _ _ => (operand_alike condition).bind fun c c' hc =>
    Alike.draft.bind fun d e hde => ?_
  have hguard : Guard.renumber sides.number (some c) = Guard.renumber sides.number' (some c') := by
    simp only [Guard.renumber, Option.map_some, hc]
  rw [Draft.body_of_renumber hde]
  by_cases hnext : e.body.next? index = some target
  · simp only [hnext, if_true]
    exact .pure rfl
  · simp only [hnext, if_false]
    refine Alike.currentBlock.bind fun source source' hsource => (Alike.blockAt target).bind
      fun block block' hblock => ?_
    obtain rfl : source = source' := hsource
    obtain rfl : block = block' := hblock
    exact (Alike.connect source block hguard).bind fun _ _ _ => alike_fallThrough source hc _

/-- Both runs report the same monitor. -/
theorem alike_monitor (name : String) (lock : Value) :
    Alike sides asIs (monitor name lock) (monitor name lock) :=
  (operand_alike lock).bind fun _ _ _ => Alike.usesMonitors.bind fun _ _ _ => .report _ _ _

/-- Operations are lowered alike. -/
theorem operation_alike (index : Nat) (op : Op Nat) :
    Alike sides asIs (operation index op) (operation index op) := by
  cases op with
  | assign place source => exact alike_assign place source
  | identity slot source =>
    exact (alike_localVar slot).bind fun _ _ hvw => (operand_alike source).bind fun _ _ =>
      alike_assignVar hvw
  | goto target => exact alike_goto target
  | branch condition target => exact alike_branch index condition target
  | invoke source => exact alike_call (prepare_alike source) rfl
  | ret value => exact alike_returnValue (operand_alike value)
  | retVoid => exact alike_returnVoid
  | monitorEnter lock => exact alike_monitor _ lock
  | monitorExit lock => exact alike_monitor _ lock
  | nop => exact .pure rfl
  | breakpoint => exact .pure rfl
  | _ => exact .fail _ rfl

/-! ### Streams -/

/-- Both runs lead the open block to the same one. -/
theorem alike_leadTo (source other : BlockId) :
    Alike sides asIs (leadTo source other) (leadTo source other) :=
  (Alike.connect source other rfl).bind fun _ _ _ => .setOpen _

/-- Both runs go on from the open block alike. -/
theorem alike_proceed (oracle : PredecessorOracle) (index : Nat) (source : BlockId)
    (starts : Option BlockId) :
    Alike sides asIs (proceed oracle index source starts) (proceed oracle index source starts) := by
  cases starts with
  | some other =>
    rw [proceed]
    split
    · exact alike_leadTo source other
    · exact .pure rfl
  | none =>
    rw [proceed]
    split
    · refine (Alike.blockAt index).bind fun other other' hother => ?_
      obtain rfl : other = other' := hother
      exact alike_leadTo source other
    · exact .pure rfl

/-- Both runs enter an instruction in the same block. -/
theorem alike_enter (oracle : PredecessorOracle) (index : Nat) :
    Alike sides asIs (enter oracle index) (enter oracle index) := by
  rw [enter_eq]
  refine (Alike.moveTo index).bind fun _ _ _ => Alike.get.bind fun s t hst => ?_
  obtain ⟨hdraft, hopen⟩ := Prod.mk.inj hst
  rw [hopen]
  cases t.openBlock with
  | none =>
    refine (Alike.blockAt index).bind fun block block' hblock => ?_
    obtain rfl : block = block' := hblock
    exact .setOpen (some block)
  | some source =>
    dsimp only
    rw [Draft.blockAt?_of_renumber hdraft]
    exact alike_proceed oracle index source _

/-- Both runs end the last block alike. -/
theorem alike_close (body : Body) : Alike sides asIs (close body) (close body) := by
  unfold Lower.close
  split
  · exact .connect _ _ rfl
  · refine Alike.get.bind fun s t hst => ?_
    rw [(Prod.mk.inj hst).2]
    cases t.openBlock with
    | some block => exact (Alike.setOpen none).bind fun _ _ _ => .connect _ _ rfl
    | none => exact .pure rfl

/-- Both runs lower instructions one after another alike, as long as the operations are. -/
theorem alike_instructions (oracle : PredecessorOracle) (instrs : List Instr) (index : Nat) :
    Alike sides asIs (instructions oracle instrs index) (instructions oracle instrs index) := by
  induction instrs generalizing index with
  | nil => exact .pure rfl
  | cons instr rest ih =>
    exact ((alike_enter oracle index).bind fun _ _ _ => operation_alike index instr.op).bind
      fun _ _ _ => ih (index + 1)

/-- The stream of a body is lowered alike from akin states. -/
theorem alike_stream (oracle : PredecessorOracle) (body : Body) :
    Alike sides asIs (stream oracle body) (stream oracle body) :=
  (alike_instructions oracle _ 0).bind fun _ _ _ => alike_close body

end Lower

namespace Session

/-- The lowerings of one body in two akin programs end alike, or a global clashes. -/
theorem flowOf_akin {sides : Sides} {p q : Program} (h : p.Akin sides q) (body : Body)
    (oracle : PredecessorOracle)
    (hlocals : (startOf body p).draft.locals.map (Var.renumber sides.number) =
      (startOf body q).draft.locals.map (Var.renumber sides.number')) :
    Runs sides Flow.renumber (flowOf body oracle p) (flowOf body oracle q) := by
  have hstart : (startOf body p).Akin sides (startOf body q) :=
    ⟨h.congr (.of_supply p _ _ (next_le_start body p.supply)) rfl
      (.of_supply q _ _ (next_le_start body q.supply)) rfl,
      Draft.renumber_start sides.alike body _ _ hlocals, rfl⟩
  have hruns := (Lower.alike_stream oracle body).runs _ _ hstart
  rw [flowOf_run, flowOf_run]
  generalize Lower.stream oracle body (startOf body p) = r at hruns
  generalize Lower.stream oracle body (startOf body q) = r' at hruns
  cases hruns with
  | answers _ hst =>
    refine .answers ?_ hst.program
    rw [← Draft.renumber_finish, ← Draft.renumber_finish, hst.draft]
  | fails hst => exact .fails hst.program
  | left hclash => cases r' <;> exact .left hclash
  | right hclash => cases r <;> exact .right hclash

/-- Where numbers do not matter, the locals of a body are the same in all programs. -/
theorem locals_startOf (body : Body) (p q : Program) :
    (startOf body p).draft.locals.map (Var.renumber fun _ => 0) =
      (startOf body q).draft.locals.map (Var.renumber fun _ => 0) := by
  have hall (s s' : VarSupply) (requests : List (String × Ty × VarRole)) :
      (s.mintAll requests).1.map (Var.renumber fun _ => 0) =
        (s'.mintAll requests).1.map (Var.renumber fun _ => 0) := by
    induction requests generalizing s s' with
    | nil => rfl
    | cons request rest ih => exact List.cons_eq_cons.mpr ⟨rfl, ih ⟨s.next + 1⟩ ⟨s'.next + 1⟩⟩
  unfold startOf Draft.start
  dsimp only
  rw [List.map_toArray, List.map_toArray, hall]

end Session

end GuardedFlow
