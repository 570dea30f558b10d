import GuardedFlow.Proofs.Lowering.Tags
import GuardedFlow.Proofs.Meaning.Computation

/-!
# Lowered accesses compute

Reads and writes of the heap compute the accesses to the cells of the global maps, and the variables of a
body have the values of the scope.
-/

namespace GuardedFlow

variable {U : Type} {M : Meaning U}

namespace Meaning

variable {w : LoweringState} {name : String} {map : Var}

/-- The cells of a map that a program keeps are cells of the global of its name. -/
theorem readCell_run (hw : w.Proper) (h : w.program.globals.lookup name = some map) (keys : List Expr)
    (σ : Store U) : M.readCell name (M.valuesIn keys w σ) σ.globals =
      some (M.valueIn (.cell map keys) w σ, σ.globals) := by
  change some (M.select (σ.globals name) (M.valuesIn keys w σ), σ.globals) =
    some (M.select (σ.get w.program map) (M.valuesIn keys w σ), σ.globals)
  rw [Store.get_kept hw.named h]

/-- A statement that changes a cell of a map that a program keeps changes the global of its name. -/
theorem writeCell_run (hw : w.Proper) (h : w.program.globals.lookup name = some map) (keys : List Expr)
    (value : Expr) (location : Location) (σ : Store U) : ∃ globals,
      M.run w.program [⟨location, .assign (.cell map keys) value⟩] σ = { σ with globals } ∧
      M.writeCell name (M.valuesIn keys w σ) (M.valueIn value w σ) σ.globals = some ((), globals) := by
  refine ⟨_, ?_, rfl⟩
  change σ.set w.program map
    (M.update (σ.get w.program map) (M.valuesIn keys w σ) (M.valueIn value w σ)) = _
  rw [Store.set_kept hw.named h, Store.get_kept hw.named h]

end Meaning

namespace Lower

variable {s : LoweringState}

section Accesses

variable {α β : Type} {base index : Lower Expr} {dest : Var} {value : Expr}
  {object position : LoweringState → Store U → Evaluation U U}

/-- The element type of an array is that of its declaration. -/
theorem computes_elementType {array : Value} {f : Ty → Lower α} {changed : List Var}
    {evaluation : Ty → LoweringState → Store U → Evaluation U β}
    {result : α → LoweringState → Store U → β}
    (h : ∀ element, Computes M (f element) (evaluation element) result changed s) :
    Computes M (elementType array >>= f)
      (fun w σ => Evaluation.lookup ((w.scope σ).body.elementType? array) >>=
        fun element => evaluation element w σ) result changed s := by
  have hrun : Yields (elementType array) s fun out _ element t => out = [] ∧
      s.draft.body.typeOf? array = some (.array element) ∧ t = s :=
    yields_elementType fun element helement => ⟨rfl, helement, rfl⟩
  refine .skip hrun fun element _ _ ⟨helement, hts⟩ => ?_
  subst hts
  refine (h element).congr fun w σ hw _ => ?_
  have hbody : (w.scope σ).body.elementType? array = some element := by
    change w.draft.body.elementType? array = _
    rw [hw.body, Body.elementType?, helement]
  rw [hbody]
  rfl

/-- A read of a field. -/
theorem computes_readField {field : FieldSig} (hrole : dest.role ≠ .global)
    (hlt : dest.id < s.program.supply.next) (hbase : Computes M base object M.valueIn [] s) :
    Computes M (readField base field dest)
      (fun w σ => object w σ >>= fun u => M.readCell field.mapName [u])
      (fun _ => M.valueIn (.var dest)) [dest] s :=
  hbase.bind (.const _) fun e _ hst _ =>
    .of_assign hrole (Nat.lt_of_lt_of_le hlt hst.program.supply) <|
      yields_access field.mapName _ (fun map => .assign (.var dest) (.cell map [e])) (fun _ => rfl)
        fun _ _ hmap _ => ⟨_, _, rfl, fun _ hw hproper σ =>
          Meaning.readCell_run hproper (hw.program.globals _ _ hmap) [e] σ⟩

/-- A read of a static field. -/
theorem computes_readStatic {field : FieldSig} (hrole : dest.role ≠ .global)
    (hlt : dest.id < s.program.supply.next) :
    Computes M (readStatic field dest) (fun _ _ => Evaluation.readGlobal field.qualifiedName)
      (fun _ => M.valueIn (.var dest)) [dest] s :=
  .of_assign hrole hlt <| yields_readStatic fun v _ hv _ => ⟨_, _, rfl, fun w hw hproper σ => by
    change some (σ.globals field.qualifiedName, σ.globals) = some (σ.get w.program v, σ.globals)
    rw [Store.get_kept hproper.named (hw.program.globals _ _ hv)]⟩

/-- A read of an array element. -/
theorem computes_readElement {array : Value} (hrole : dest.role ≠ .global)
    (hlt : dest.id < s.program.supply.next) (hbase : Computes M base object M.valueIn [] s)
    (hsteady : Steady s.program.supply.next position)
    (hindex : ∀ t, Continues s t → Computes M index position M.valueIn [] t) :
    Computes M (readElement array base index dest)
      (fun w σ => Evaluation.lookup ((w.scope σ).body.elementType? array) >>= fun element =>
        object w σ >>= fun u => position w σ >>= fun i => M.readCell element.mapName [u, i])
      (fun _ => M.valueIn (.var dest)) [dest] s := by
  refine computes_elementType fun element => hbase.bind ?_ fun b t hst hb =>
    (hindex t hst).bind ?_ fun i u htu _ =>
      .of_assign hrole (Nat.lt_of_lt_of_le hlt (hst.trans htu).program.supply) <|
        yields_access element.mapName _ (fun map => .assign (.var dest) (.cell map [b, i]))
          (fun _ => rfl) fun _ _ hmap _ => ⟨_, _, rfl, fun _ hw hproper σ =>
            Meaning.readCell_run hproper (hw.program.globals _ _ hmap) [b, i] σ⟩
  · exact hsteady.map fun position u => position >>= fun i => M.readCell element.mapName [u, i]
  · exact hb.map fun u i => M.readCell element.mapName [u, i]

/-- A write of a field. -/
theorem computes_writeField {field : FieldSig} (hvalue : Steady s.program.supply.next (M.valueIn value))
    (hbase : Computes M base object M.valueIn [] s) :
    Computes M (writeField base field value)
      (fun w σ => object w σ >>= fun u => M.writeCell field.mapName [u] (M.valueIn value w σ))
      (fun _ _ _ => ()) [] s :=
  hbase.bind (hvalue.map fun value u => M.writeCell field.mapName [u] value) fun e _ _ _ => .of_write <|
    yields_access field.mapName _ (fun map => .assign (.cell map [e]) value) (fun _ => rfl)
      fun _ _ hmap _ _ hw hproper σ =>
        Meaning.writeCell_run hproper (hw.program.globals _ _ hmap) [e] value _ σ

/-- A write of a static field. -/
theorem computes_writeStatic {field : FieldSig} :
    Computes M (writeStatic field value)
      (fun w σ => Evaluation.writeGlobal field.qualifiedName (M.valueIn value w σ))
      (fun _ _ _ => ()) [] s :=
  .of_write <| yields_writeStatic fun _ _ hv _ _ hw hproper σ =>
    ⟨_, Store.set_kept hproper.named (hw.program.globals _ _ hv) σ _, rfl⟩

/-- A write of an array element. -/
theorem computes_writeElement {array : Value}
    (hvalue : Steady s.program.supply.next (M.valueIn value))
    (hbase : Computes M base object M.valueIn [] s)
    (hsteady : Steady s.program.supply.next position)
    (hindex : ∀ t, Continues s t → Computes M index position M.valueIn [] t) :
    Computes M (writeElement array base index value)
      (fun w σ => Evaluation.lookup ((w.scope σ).body.elementType? array) >>= fun element =>
        object w σ >>= fun u => position w σ >>= fun i =>
          M.writeCell element.mapName [u, i] (M.valueIn value w σ))
      (fun _ _ _ => ()) [] s := by
  refine computes_elementType fun element => hbase.bind ?_ fun b t hst hb =>
    (hindex t hst).bind ?_ fun i u htu _ => .of_write <|
      yields_access element.mapName _ (fun map => .assign (.cell map [b, i]) value) (fun _ => rfl)
        fun _ _ hmap _ _ hw hproper σ =>
          Meaning.writeCell_run hproper (hw.program.globals _ _ hmap) [b, i] value _ σ
  · exact hsteady.map₂ hvalue fun position value u => position >>= fun i =>
      M.writeCell element.mapName [u, i] value
  · exact hb.map₂ (hvalue.mono hst.program.supply) fun u value i =>
      M.writeCell element.mapName [u, i] value

/-- A read of the length of an array. -/
theorem computes_readLength {array : Value} (hrole : dest.role ≠ .global)
    (hlt : dest.id < s.program.supply.next)
    (hbase : ∀ t, Continues s t → Computes M base object M.valueIn [] t) :
    Computes M (readLength array base dest)
      (fun w σ => Evaluation.lookup ((w.scope σ).body.elementType? array) >>= fun element =>
        object w σ >>= fun u => M.readCell ((w.scope σ).lengthField element).mapName [u])
      (fun _ => M.valueIn (.var dest)) [dest] s := by
  refine computes_elementType fun element => ?_
  have hrun : Yields (arrayClass element) s fun out _ arrays t => out = [] ∧
      (t.program.arrayClass element).1 = arrays :=
    yields_arrayClass ⟨rfl, (s.program.grows_arrayClass element).arrays element⟩
  refine .skip hrun fun arrays t hst harrays => ?_
  refine (computes_readField hrole (Nat.lt_of_lt_of_le hlt hst.program.supply) (hbase t hst)).congr
    fun w σ hw _ => ?_
  have hfield : (w.scope σ).lengthField element = arrays.lengthField := by
    change (w.program.arrayClass element).1.lengthField = _
    rw [hw.program.arrays, harrays]
  rw [hfield]

/-- A read of the type tag of an object. -/
theorem computes_readTag {e : Expr} (he : Steady s.program.supply.next (M.valueIn e)) :
    Computes M (readTag e)
      (fun w σ => M.readCell (w.scope σ).typeField.mapName [M.valueIn e w σ]) M.valueIn [] s := by
  have hrun : Yields program s fun out _ p t => out = [] ∧ p = t.program :=
    yields_program ⟨rfl, rfl⟩
  refine .skip hrun fun p t hst hp => .intoTemp fun temp u htu hrole hlt => ?_
  have hsteady := he.mono (hst.trans htu).program.supply
  refine (computes_readField hrole hlt (.pure e hsteady)).congr fun w σ hw _ => ?_
  have hfield : (w.scope σ).typeField = p.typeField := by
    rw [hp]
    exact (htu.trans hw).program.typeField
  rw [hfield]
  rfl

end Accesses

section Variables

/-- A variable of a body that operands refer to. -/
theorem computes_var {lookup : Lower Var} {f : Scope U → Option U}
    (h : Yields lookup s fun out _ x t => out = [] ∧ x.role ≠ .global ∧
      x.id < t.program.supply.next ∧ ∀ w, Continues t w → ∀ σ, f (w.scope σ) = some (σ.locals x.id)) :
    Computes M (return .var (← lookup)) (fun w σ => Evaluation.lookup (f (w.scope σ))) M.valueIn [] s :=
  .skip h fun x t _ ⟨hrole, hlt, hfound⟩ =>
    (Computes.pure (Expr.var x) (M.steady_var hrole hlt)).congr fun w σ hw hproper => by
      change _ = Pure.pure (σ.get w.program x)
      rw [hfound w hw σ, Store.get_local hproper.named hrole]
      rfl

/-- A local computes its value. -/
theorem computes_slot (hs : s.Proper) (index : Nat) : Computes M (operand (.slot index))
    (fun w σ => M.eval (w.scope σ) (.slot index)) M.valueIn [] s := by
  refine computes_var (f := fun scope => scope.slots[index]?) (yields_localVar fun x hx hslot => ?_)
  obtain ⟨hrole, hlt⟩ := hs.locals x hx
  refine ⟨rfl, by simp [hrole], hlt, fun w hw σ => ?_⟩
  simp [LoweringState.scope, hw.locals, hslot]

/-- A parameter computes its value. -/
theorem computes_parameter (hs : s.Proper) (index : Nat) (ty : Ty) :
    Computes M (operand (.parameter index ty))
      (fun w σ => M.eval (w.scope σ) (.parameter index ty)) M.valueIn [] s := by
  refine computes_var (f := fun scope => scope.params[index]?) <|
    yields_found (·.params[index]?) (.parameterOutOfRange index) rfl
      (fun d => by cases d.params[index]? <;> rfl) fun x hindex => ?_
  obtain ⟨⟨_, hrole⟩, hlt⟩ := hs.params x (Array.mem_of_getElem? hindex)
  refine ⟨rfl, by simp [hrole], hlt, fun w hw σ => ?_⟩
  simp [LoweringState.scope, hw.params, hindex]

/-- The receiver computes its value. -/
theorem computes_receiver (hs : s.Proper) (ty : Ty) : Computes M (operand (.receiver ty))
    (fun w σ => M.eval (w.scope σ) (.receiver ty)) M.valueIn [] s := by
  refine computes_var (f := fun scope => scope.receiver) <|
    yields_found (·.receiver) .receiverInStatic rfl (fun d => by cases d.receiver <;> rfl) fun x hx => ?_
  obtain ⟨hrole, hlt⟩ := hs.receiver x hx
  refine ⟨rfl, by simp [hrole], hlt, fun w hw σ => ?_⟩
  simp [LoweringState.scope, hw.receiver, hx]

/-- The caught exception computes its value. -/
theorem computes_caughtException (hs : s.Proper) (ty : Ty) : Computes M (operand (.caughtException ty))
    (fun w σ => M.eval (w.scope σ) (.caughtException ty)) M.valueIn [] s := by
  refine computes_var (f := fun scope => scope.caught) <|
    yields_caughtException (fun x hx => ?_) fun x p hnone hx hp => ?_
  · obtain ⟨hrole, hlt⟩ := hs.exception x hx
    refine ⟨rfl, by simp [hrole], hlt, fun w hw σ => ?_⟩
    simp [LoweringState.scope, hw.exception x hx]
  · subst hx hp
    refine ⟨rfl, by simp, Nat.lt_succ_self _, fun w hw σ => ?_⟩
    simp [LoweringState.scope, hw.exception _ rfl]

end Variables

end Lower

end GuardedFlow
