import GuardedFlow.Proofs.Meaning.Accesses
import GuardedFlow.Proofs.Meaning.Evaluation

/-!
# Lowered operands compute

Calls and then operand trees of any depth are lowered to steps that compute their evaluations, unless
their evaluation ends the path.
-/

namespace GuardedFlow

variable {U : Type} {M : Meaning U}

namespace Lower

variable {s : LoweringState}

section Calls

variable {base : Lower Expr} {args : List (Lower Expr)} {dest : Var}
  {objects : LoweringState → Store U → Evaluation U (List U)}
  {object : LoweringState → Store U → Evaluation U U}

/-- Arguments without a receiver. -/
theorem computes_arguments_none (hargs : Computes M (args.mapM id) objects M.valuesIn [] s) :
    Computes M (arguments none args) objects M.valuesIn [] s := by
  have hrun : arguments none args = args.mapM id := bind_pure (args.mapM id)
  rw [hrun]
  exact hargs

/-- Arguments are evaluated before the receiver that goes in front of them. -/
theorem computes_arguments_some (hargs : Computes M (args.mapM id) objects M.valuesIn [] s)
    (hsteady : Steady s.program.supply.next object)
    (hbase : ∀ t, Continues s t → Computes M base object M.valueIn [] t) :
    Computes M (arguments (some base) args)
      (fun w σ => objects w σ >>= fun us => object w σ >>= fun u => pure (u :: us)) M.valuesIn [] s := by
  refine hargs.bind ?_ fun es t hst hes => (hbase t hst).bind ?_ fun e _ htu he =>
    .pure (e :: es) (he.map₂ (hes.mono htu.program.supply) List.cons)
  · exact hsteady.map fun object us => object >>= fun u => pure (u :: us)
  · exact hes.map fun us (u : U) => (pure (u :: us) : Evaluation U (List U))

/-- A call statement. -/
theorem computes_emitCall {callee : Callee} {es : List Expr} (hrole : dest.role ≠ .global)
    (hlt : dest.id < s.program.supply.next) :
    Computes M (emitHere (.call callee es (some (.var dest))))
      (fun w σ => M.invoke callee.signature (M.valuesIn es w σ)) (fun _ => M.valueIn (.var dest))
      [dest] s :=
  .of_local hrole hlt <| yields_emitHere fun _ _ w _ hproper σ => by
    refine ⟨_, _, ?_, rfl⟩
    change ({ σ with globals := _ } : Store U).set w.program dest _ = _
    rw [Store.set_local hproper.named hrole]
    rfl

/-- A call of a method of the program. -/
theorem computes_resolve {m : Lower (List Expr)} {method : MethodSig} (hrole : dest.role ≠ .global)
    (hlt : dest.id < s.program.supply.next) (hm : Computes M m objects M.valuesIn [] s) :
    Computes M (do
        let args ← m
        let id ← resolve method
        emitHere (.call (.method id method.text) args (some (.var dest))))
      (fun w σ => objects w σ >>= M.invoke method.text) (fun _ => M.valueIn (.var dest)) [dest] s :=
  hm.bind (.const _) fun _ _ hst _ =>
    .skip (R := fun _ _ => True) (yields_resolve ⟨rfl, trivial⟩) fun _ _ htu _ =>
      computes_emitCall hrole (Nat.lt_of_lt_of_le hlt (hst.trans htu).program.supply)

/-- A call whose callee is not known. -/
theorem computes_indirectCall {call : Call (Lower Expr)} (hrole : dest.role ≠ .global)
    (hlt : dest.id < s.program.supply.next)
    (hargs : ∀ t, Continues s t →
      Computes M (arguments call.base call.args) objects M.valuesIn [] t) :
    Computes M (indirectCall call (some (.var dest)))
      (fun w σ => objects w σ >>= M.invoke call.method.text) (fun _ => M.valueIn (.var dest))
      [dest] s := by
  refine .skip (R := fun _ _ => True) (yields_program ⟨rfl, trivial⟩) fun p t hst _ => ?_
  split
  · exact .fail_bind rfl
  · refine .skip (R := fun _ _ => True) (yields_report fun _ => ⟨rfl, trivial⟩) fun _ u htu _ => ?_
    exact (hargs u (hst.trans htu)).bind (.const _) fun _ _ huw _ =>
      computes_emitCall hrole (Nat.lt_of_lt_of_le hlt ((hst.trans htu).trans huw).program.supply)

/-- An operand is lowered to a step that computes it, from all proper states of a configuration. -/
def Denotes (M : Meaning U) (config : Config) (v : Value) : Prop :=
  ∀ s : LoweringState, s.program.config = config → s.Proper →
    Computes M (operand v) (fun w σ => M.evaluate config (w.scope σ) v) M.valueIn [] s

namespace Denotes

variable {config : Config} {v : Value} {t : LoweringState}

/-- What an operand denotes is computed from every later state as well. -/
theorem later (h : Denotes M config v) (hconfig : s.program.config = config) (hs : s.Proper)
    (hst : Continues s t) :
    Computes M (operand v) (fun w σ => M.evaluate config (w.scope σ) v) M.valueIn [] t :=
  h t (hst.program.config.trans hconfig) (hst.proper hs)

end Denotes

variable {config : Config} {source : Call Value}

/-- Operands of a list are computed from left to right. -/
theorem computes_operands {values : List Value} (h : ∀ v ∈ values, Denotes M config v)
    (hconfig : s.program.config = config) (hs : s.Proper) : Computes M ((operands values).mapM id)
      (fun w σ => (M.evaluateAll config (w.scope σ) values).mapM id) M.valuesIn [] s := by
  induction values generalizing s with
  | nil => exact .pure [] (.const _)
  | cons v rest ih =>
    have hrest {t : LoweringState} (hst : Continues s t) :=
      ih (fun v hv => h v (List.mem_cons_of_mem _ hv)) (hst.program.config.trans hconfig) (hst.proper hs)
    rw [operands, List.mapM_cons]
    refine ((h v List.mem_cons_self s hconfig hs).bind ?_ fun e t hst he => (hrest hst).bind ?_
      fun es _ htu hes => .pure (e :: es) ((he.mono htu.program.supply).map₂ hes List.cons)).congr
        fun w σ _ _ => by rw [Meaning.evaluateAll, List.mapM_cons, id_eq]
    · exact .scope fun scope u => (M.evaluateAll config scope rest).mapM id >>= fun us => pure (u :: us)
    · exact he.map fun u (us : List U) => (pure (u :: us) : Evaluation U (List U))

/-- The receiver of a call is computed. -/
theorem computes_callReceiver (h : ∀ v ∈ source.base, Denotes M config v)
    (hconfig : s.program.config = config) (hs : s.Proper) :
    Computes M (receiver (prepare source))
      (fun w σ => Meaning.receiver (M.prepare config (w.scope σ) source)) M.valueIn [] s := by
  obtain ⟨kind, method, base, args⟩ := source
  cases base with
  | none => exact .fail rfl
  | some v => exact h v rfl s hconfig hs

/-- The only argument of a call is computed. -/
theorem computes_onlyArgument (h : ∀ v ∈ source.args, Denotes M config v)
    (hconfig : s.program.config = config) (hs : s.Proper) :
    Computes M (onlyArgument (prepare source))
      (fun w σ => Meaning.onlyArgument (M.prepare config (w.scope σ) source)) M.valueIn [] s := by
  obtain ⟨kind, method, base, args⟩ := source
  rcases args with _ | ⟨v, _ | ⟨_, _⟩⟩
  · exact .fail rfl
  · exact h v List.mem_cons_self s hconfig hs
  · exact .fail rfl

/-- The arguments of a call are computed, and the receiver if there is one. -/
theorem computes_arguments (hbase : ∀ v ∈ source.base, Denotes M config v)
    (hargs : ∀ v ∈ source.args, Denotes M config v) (hconfig : s.program.config = config)
    (hs : s.Proper) : Computes M (arguments (prepare source).base (prepare source).args)
      (fun w σ => Meaning.arguments (M.prepare config (w.scope σ) source).base
        (M.prepare config (w.scope σ) source).args) M.valuesIn [] s := by
  have hoperands := computes_operands hargs hconfig hs
  obtain ⟨kind, method, base, args⟩ := source
  cases base with
  | none =>
    exact (computes_arguments_none hoperands).congr fun w σ _ _ => bind_pure _
  | some v =>
    exact computes_arguments_some hoperands (.scope fun scope => M.evaluate config scope v)
      fun t hst => (hbase v rfl).later hconfig hs hst

/-- The answer of a query is stored. -/
theorem computes_answer {e : Expr} (hrole : dest.role ≠ .global) (hlt : dest.id < s.program.supply.next) :
    Computes M (answer (some (.var dest)) e) (fun w σ => pure (M.valueIn e w σ))
      (fun _ => M.valueIn (.var dest)) [dest] s :=
  .of_assign hrole hlt <| yields_emitHere fun _ _ => ⟨_, e, rfl, fun _ _ _ _ => rfl⟩

/-- The answer of a query is computed and stored. -/
theorem computes_answerOf {m : Lower Expr} (hrole : dest.role ≠ .global)
    (hlt : dest.id < s.program.supply.next) (hm : Computes M m object M.valueIn [] s) :
    Computes M (m >>= answer (some (.var dest))) object (fun _ => M.valueIn (.var dest)) [dest] s :=
  (hm.bind (.const pure) fun _ _ hst _ =>
    computes_answer hrole (Nat.lt_of_lt_of_le hlt hst.program.supply)).congr fun _ _ _ _ =>
      (bind_pure _).symm

/-- A property to be proven changes nothing. -/
theorem computes_assert {e : Expr} :
    Computes M (emitHere (.assert e)) (fun _ _ => pure ()) (fun _ _ _ => ()) [] s :=
  .of_write <| yields_emitHere fun _ _ _ _ _ σ => ⟨σ.globals, rfl, rfl⟩

/-- A call of the length of a string. -/
theorem computes_stringLength {m : Lower Expr} (hrole : dest.role ≠ .global)
    (hlt : dest.id < s.program.supply.next) (hconfig : s.program.config = config)
    (hm : Computes M m object M.valueIn [] s) :
    Computes M (do
        let base ← m
        let length ← request (Heap.stringLength base)
        emitHere (.assign (.var dest) length))
      (fun w σ => object w σ >>= fun u => M.readCell config.stringLengthField.mapName [u])
      (fun _ => M.valueIn (.var dest)) [dest] s :=
  hm.bind (.const _) fun e t hst _ =>
    .of_assign hrole (Nat.lt_of_lt_of_le hlt hst.program.supply) <|
      (yields_global (Q := fun out fin a u => out = [] ∧ fin = none ∧ ∃ map, a = Expr.cell map [e] ∧
          u.program.globals.lookup config.stringLengthField.mapName = some map)
        config.stringLengthField.mapName _ (fun map => Expr.cell map [e])
        (by rw [← hst.program.config.trans hconfig]; rfl)
        fun map _ _ hmap _ => ⟨rfl, rfl, map, rfl, hmap⟩).bind fun _ _ a u _ ha => by
          obtain ⟨rfl, rfl, map, rfl, hmap⟩ := ha
          exact yields_emitHere fun _ _ => ⟨_, _, rfl, fun _ hw hproper σ =>
            Meaning.readCell_run hproper (hw.program.globals _ _ hmap) [e] σ⟩

/-- A cast by a call asserts what the type tag says, and that has no influence on its value. -/
theorem computes_castCall (hrole : dest.role ≠ .global) (hlt : dest.id < s.program.supply.next)
    (hreceiver : Computes M (receiver (prepare source))
      (fun w σ => Meaning.receiver (M.prepare config (w.scope σ) source)) M.valueIn [] s)
    (hargument : ∀ t, Continues s t → Computes M (onlyArgument (prepare source))
      (fun w σ => Meaning.onlyArgument (M.prepare config (w.scope σ) source)) M.valueIn [] t) :
    Computes M (idiom .cast (prepare source) (some (.var dest)))
      (fun w σ => Meaning.receiver (M.prepare config (w.scope σ) source) >>= fun _ =>
        Meaning.onlyArgument (M.prepare config (w.scope σ) source))
      (fun _ => M.valueIn (.var dest)) [dest] s := by
  have hcomputes : Computes M (idiom .cast (prepare source) (some (.var dest)))
      (fun w σ => Meaning.receiver (M.prepare config (w.scope σ) source) >>= fun _ =>
        Meaning.onlyArgument (M.prepare config (w.scope σ) source) >>= fun arg =>
          M.readCell (w.scope σ).typeField.mapName [arg] >>= fun _ => pure () >>= fun _ => pure arg)
      (fun _ => M.valueIn (.var dest)) [dest] s := by
    refine hreceiver.bind ?_ fun e t hst _ => (hargument t hst).bind ?_
      fun k u htu hk => (computes_readTag hk).bind ?_ fun tag v huv _ => computes_assert.bind ?_
        fun _ w hvw _ => computes_answer hrole
          (Nat.lt_of_lt_of_le hlt (((hst.trans htu).trans huv).trans hvw).program.supply)
    · exact .scope fun scope _ => Meaning.onlyArgument (M.prepare config scope source) >>= fun arg =>
        M.readCell scope.typeField.mapName [arg] >>= fun _ => pure () >>= fun _ => pure arg
    · exact .scope fun scope arg =>
        M.readCell scope.typeField.mapName [arg] >>= fun _ => pure () >>= fun _ => pure arg
    · exact hk.map fun arg (_ : U) => (pure () >>= fun _ => pure arg : Evaluation U U)
    · exact (hk.mono huv.program.supply).map fun arg (_ : Unit) => (pure arg : Evaluation U U)
  refine hcomputes.congr fun w σ _ _ => ?_
  have hunread (arg : U) : (M.readCell (w.scope σ).typeField.mapName [arg] >>= fun _ =>
      pure () >>= fun _ => pure arg) = (pure arg : Evaluation U U) := rfl
  simp only [hunread, bind_pure]

/-- A call with an idiom that does not end the path. -/
theorem computes_idiom {kind : IdiomKind} (hexit : kind ≠ .exit) (hfailure : kind ≠ .testFailure)
    (hrole : dest.role ≠ .global) (hlt : dest.id < s.program.supply.next)
    (hconfig : s.program.config = config) (hs : s.Proper)
    (hbase : kind.isQuery ∨ kind = .stringLength → ∀ v ∈ source.base, Denotes M config v)
    (hargs : kind.isQuery → kind ≠ .getClass → ∀ v ∈ source.args, Denotes M config v) :
    Computes M (idiom kind (prepare source) (some (.var dest)))
      (fun w σ => M.idiom config (w.scope σ).typeField kind (M.prepare config (w.scope σ) source))
      (fun _ => M.valueIn (.var dest)) [dest] s := by
  have hreceiver (h : kind.isQuery ∨ kind = .stringLength) := computes_callReceiver (hbase h) hconfig hs
  have hargument (h : kind.isQuery) (h' : kind ≠ .getClass) {t : LoweringState} (hst : Continues s t) :=
    computes_onlyArgument (hargs h h') (hst.program.config.trans hconfig) (hst.proper hs)
  have hlater {t : LoweringState} (hst : Continues s t) : dest.id < t.program.supply.next :=
    Nat.lt_of_lt_of_le hlt hst.program.supply
  cases kind with
  | assertion => exact .fail rfl
  | precondition => exact .fail rfl
  | exit => exact absurd rfl hexit
  | testFailure => exact absurd rfl hfailure
  | stringLength => exact computes_stringLength hrole hlt hconfig (hreceiver (.inr rfl))
  | isAssignableFrom =>
    refine (hreceiver (.inl rfl)).bind ?_ fun e t hst he => (hargument rfl (by simp) hst).bind ?_
      fun k u htu _ => computes_answer hrole (hlater (hst.trans htu))
    · exact .scope fun scope base => Meaning.onlyArgument (M.prepare config scope source) >>=
        fun arg => pure (M.binary .subtype arg base)
    · exact he.map fun base arg => (pure (M.binary .subtype arg base) : Evaluation U U)
  | getClass =>
    refine (hreceiver (.inl rfl)).bind ?_ fun e t hst he =>
      computes_answerOf hrole (hlater hst) (computes_readTag he)
    exact .scope fun scope base => M.readCell scope.typeField.mapName [base]
  | cast =>
    exact computes_castCall hrole hlt (hreceiver (.inl rfl)) fun t hst => hargument rfl (by simp) hst
  | isInstance =>
    refine (hreceiver (.inl rfl)).bind ?_ fun e t hst he => (hargument rfl (by simp) hst).bind ?_
      fun k u htu hk => (computes_readTag hk).bind ?_ fun tag v huv _ =>
        computes_answer hrole (hlater ((hst.trans htu).trans huv))
    · exact .scope fun scope base => Meaning.onlyArgument (M.prepare config scope source) >>= fun arg =>
        M.readCell scope.typeField.mapName [arg] >>= fun tag => pure (M.binary .subtype tag base)
    · exact (Steady.scope Scope.typeField).map₂ he fun typeField base arg =>
        M.readCell typeField.mapName [arg] >>= fun tag => pure (M.binary .subtype tag base)
    · exact (he.mono htu.program.supply).map fun base (tag : U) =>
        (pure (M.binary .subtype tag base) : Evaluation U U)

/-- A call of a method of the program has the receiver that its kind asks for. -/
theorem computes_resolvedCall (hrole : dest.role ≠ .global) (hlt : dest.id < s.program.supply.next)
    (hconfig : s.program.config = config) (hs : s.Proper)
    (hbase : source.kind.hasReceiver → ∀ v ∈ source.base, Denotes M config v)
    (hargs : ∀ v ∈ source.args, Denotes M config v) :
    Computes M (resolvedCall (prepare source) (some (.var dest)))
      (fun w σ => Meaning.arguments (if source.kind.hasReceiver then
          some (Meaning.receiver (M.prepare config (w.scope σ) source)) else none)
          (M.prepare config (w.scope σ) source).args >>= M.invoke source.method.text)
      (fun _ => M.valueIn (.var dest)) [dest] s := by
  have hoperands := computes_operands hargs hconfig hs
  unfold resolvedCall
  by_cases hkind : source.kind.hasReceiver
  · simp only [show (prepare source).kind = source.kind from rfl, hkind, if_true]
    exact computes_resolve hrole hlt (computes_arguments_some hoperands
      (.scope fun scope => Meaning.receiver (M.prepare config scope source)) fun t hst =>
        computes_callReceiver (hbase hkind) (hst.program.config.trans hconfig) (hst.proper hs))
  · simp only [show (prepare source).kind = source.kind from rfl, hkind]
    refine (computes_resolve hrole hlt (computes_arguments_none hoperands)).congr fun w σ _ _ => ?_
    exact congrArg (· >>= M.invoke source.method.text) (bind_pure _)

/-- A call of any kind that does not end the path. -/
theorem computes_call (source : Call Value)
    (hfin : Call.pathEnd (Idiom.table config) ⟨source.kind, source.method,
      Value.pathEnd? (Idiom.table config) source.base,
      Value.pathEnds (Idiom.table config) source.args⟩ true = none)
    (hrole : dest.role ≠ .global) (hlt : dest.id < s.program.supply.next)
    (hconfig : s.program.config = config) (hs : s.Proper)
    (hbase : ∀ v ∈ source.base, v.pathEnd (Idiom.table config) = none → Denotes M config v)
    (hargs : ∀ v ∈ source.args, v.pathEnd (Idiom.table config) = none → Denotes M config v) :
    Computes M (call (prepare source) (some (.var dest)))
      (fun w σ => M.callResult config (w.scope σ).typeField (M.prepare config (w.scope σ) source))
      (fun _ => M.valueIn (.var dest)) [dest] s := by
  replace hbase (h : (Value.pathEnd? (Idiom.table config) source.base).join = none) :
      ∀ v ∈ source.base, Denotes M config v := fun v hv => hbase v hv (Value.pathEnd?_none h v hv)
  replace hargs (h : (Value.pathEnds (Idiom.table config) source.args).foldr Option.or none = none) :
      ∀ v ∈ source.args, Denotes M config v := fun v hv => hargs v hv (Value.pathEnds_none h v hv)
  unfold Call.pathEnd at hfin
  unfold call Meaning.callResult
  by_cases hdynamic : source.kind = .dynamic
  · simp only [hdynamic, if_true, Option.or_eq_none_iff] at hfin
    rw [if_pos (show (prepare source).kind = .dynamic from hdynamic)]
    refine (computes_indirectCall hrole hlt fun t hst => computes_arguments (hbase hfin.2) (hargs hfin.1)
      (hst.program.config.trans hconfig) (hst.proper hs)).congr fun w σ _ _ => ?_
    rw [if_pos (show (M.prepare config (w.scope σ) source).kind = .dynamic from hdynamic)]
    rfl
  have hprogram : Yields program s fun out _ p t => out = [] ∧ p.idioms = Idiom.table config ∧ t = s :=
    yields_program ⟨rfl, by rw [Program.idioms, hconfig], rfl⟩
  simp only [hdynamic, if_false] at hfin
  rw [if_neg (show (prepare source).kind ≠ .dynamic from hdynamic)]
  refine .skip hprogram fun p t _ hpt => ?_
  obtain ⟨hp, hts⟩ := hpt
  subst hts
  rw [hp, Option.isSome_some]
  refine Computes.congr ?_ fun w σ _ _ => if_neg hdynamic
  have hmethod : (prepare source).method = source.method := rfl
  have hmethodOf (scope : Scope U) : (M.prepare config scope source).method = source.method := rfl
  cases hlookup : Idiom.lookup (Idiom.table config) ⟨source.method, true⟩ with
  | some kind =>
    rw [hlookup] at hfin
    simp only [hmethod, hmethodOf, hlookup]
    refine computes_idiom ?_ ?_ hrole hlt hconfig hs (fun h => hbase ?_) fun h h' => hargs ?_
    · rintro rfl
      cases hfin
    · rintro rfl
      cases hfin
    · cases kind <;> simp_all [IdiomKind.isQuery]
    · cases kind <;> simp_all [IdiomKind.isQuery]
  | none =>
    rw [hlookup] at hfin
    obtain ⟨hfinArgs, hfinBase⟩ := Option.or_eq_none_iff.mp hfin
    simp only [hmethod, hmethodOf, hlookup]
    refine computes_resolvedCall hrole hlt hconfig hs (fun hkind => hbase ?_) (hargs hfinArgs)
    rwa [if_pos hkind] at hfinBase

end Calls

section Operands

variable {config : Config}

/-- A constant keeps what it denotes, and so its value. -/
theorem computes_const (value : Const) : Computes M (operand (.const value))
    (fun w σ => M.evaluate config (w.scope σ) (.const value)) M.valueIn [] s :=
  (Computes.pure (Expr.lit (literal value)) (.const _)).congr fun w σ _ _ => by
    rw [Meaning.evaluate, ← denoted_literal]
    rfl

/-- An allocation stands for a fresh reference. -/
theorem computes_alloc (ty : Ty) :
    Computes M (pure (.alloc ty)) (fun _ _ => pure (M.alloc ty)) M.valueIn [] s :=
  .pure (Expr.alloc ty) (.const _)

mutual

/-- An operand that does not end the path is lowered to a step that computes it. -/
theorem operand_denotes : ∀ v : Value, v.pathEnd (Idiom.table config) = none → Denotes M config v
  | .slot index, _, _, _, hs => computes_slot hs index
  | .const value, _, _, _, _ => computes_const value
  | .unary op v, hv, s, hconfig, hs =>
    (operand_denotes v hv s hconfig hs).bind (.const _) fun e _ _ he =>
      .pure (Expr.unary op e) (he.map (M.unary op))
  | .binary op v w, hv, s, hconfig, hs => by
    obtain ⟨hv, hw⟩ := Option.or_eq_none_iff.mp hv
    refine (operand_denotes v hv s hconfig hs).bind ?_ fun e t hst he =>
      ((operand_denotes w hw).later hconfig hs hst).bind ?_ fun e' _ htu he' =>
        .pure (Expr.binary op e e') ((he.mono htu.program.supply).map₂ he' (M.binary op))
    · exact .scope fun scope u => M.evaluate config scope w >>= fun u' => pure (M.binary op u u')
    · exact he.map fun u (u' : U) => (pure (M.binary op u u') : Evaluation U U)
  | .cast _ v, hv, s, hconfig, hs => operand_denotes v hv s hconfig hs
  | .instanceOf ty v, hv, s, hconfig, hs => by
    refine (operand_denotes v hv s hconfig hs).bind ?_ fun e t hst he =>
      (computes_readTag he).bind (.const _) fun tag _ _ htag =>
        .pure (Expr.binary .subtype tag (.tag ty))
          (htag.map fun u => M.binary .subtype u (M.datum (.type ty)))
    exact .scope fun scope u => M.readCell scope.typeField.mapName [u] >>= fun tag =>
      pure (M.binary .subtype tag (M.datum (.type ty)))
  | .length v, hv, s, hconfig, hs =>
    .intoTemp fun temp t hst hrole hlt => computes_readLength hrole hlt fun u htu =>
      (operand_denotes v hv).later hconfig hs (hst.trans htu)
  | .new ty, _, _, _, _ => computes_alloc ty
  | .newMultiArray ty _, _, _, _, _ => computes_alloc ty
  | .newArray element _, _, _, _, _ => computes_alloc (.array element)
  | .field v field, hv, s, hconfig, hs =>
    .skip (R := fun _ _ => True) (yields_typeOf fun _ _ => ⟨rfl, trivial⟩) fun _ _ hst _ =>
      .intoTemp fun _ u htu hrole hlt => computes_readField hrole hlt <|
        (operand_denotes v hv).later hconfig hs (hst.trans htu)
  | .staticField _, _, _, _, _ =>
    .skip (R := fun _ _ => True) (yields_typeOf fun _ _ => ⟨rfl, trivial⟩) fun _ _ _ _ =>
      .intoTemp fun _ _ _ hrole hlt => computes_readStatic hrole hlt
  | .element v w, hv, s, hconfig, hs => by
    obtain ⟨hv, hw⟩ := Option.or_eq_none_iff.mp hv
    refine .skip (R := fun _ _ => True) (yields_typeOf fun _ _ => ⟨rfl, trivial⟩) fun _ t hst _ =>
      .intoTemp fun _ u htu hrole hlt => ?_
    have hsu := hst.trans htu
    exact computes_readElement hrole hlt ((operand_denotes v hv).later hconfig hs hsu)
      (.scope fun scope => M.evaluate config scope w) fun x hux =>
        (operand_denotes w hw).later hconfig hs (hsu.trans hux)
  | .call kind method base args, hv, s, hconfig, hs =>
    .intoTemp fun _ t hst hrole hlt => computes_call ⟨kind, method, base, args⟩ hv hrole hlt
      (hst.program.config.trans hconfig) (hst.proper hs) (operand?_denotes base) (operands_denote args)
  | .parameter index ty, _, _, _, hs => computes_parameter hs index ty
  | .receiver ty, _, _, _, hs => computes_receiver hs ty
  | .caughtException ty, _, _, _, hs => computes_caughtException hs ty

/-- The operands of a list denote their values, one by one. -/
theorem operands_denote : ∀ vs : List Value, ∀ v ∈ vs, v.pathEnd (Idiom.table config) = none →
    Denotes M config v
  | v :: vs, w, hw, hfin => by
    cases hw with
    | head => exact operand_denotes v hfin
    | tail _ hw => exact operands_denote vs w hw hfin

/-- An operand that may be absent denotes its value. -/
theorem operand?_denotes : ∀ v? : Option Value, ∀ v ∈ v?, v.pathEnd (Idiom.table config) = none →
    Denotes M config v
  | some v, w, hw, hfin => by
    cases hw
    exact operand_denotes v hfin

end

end Operands

end Lower

end GuardedFlow
