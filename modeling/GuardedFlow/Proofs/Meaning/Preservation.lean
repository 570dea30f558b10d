import GuardedFlow.Proofs.Lowering.Variables
import GuardedFlow.Proofs.Meaning.Lowering

/-!
# Lowering preserves the meaning of operands and assignments

Operands without allocations and idioms, and assignments of them, have the effect and the value that
`Meaning.eval` gives them.
-/

namespace GuardedFlow

variable {U : Type} {M : Meaning U}

namespace Lower

variable {s : LoweringState}

/-- A plain operand is lowered to a step that computes the value that `eval` gives it. -/
theorem operand_computes {idioms : List Idiom} (v : Value) (hv : v.plain idioms) (s : LoweringState)
    (hidioms : s.program.idioms = idioms) (hs : s.Proper) :
    Computes M (operand v) (fun w σ => M.eval (w.scope σ) v) M.valueIn [] s := by
  subst hidioms
  exact (operand_denotes v (Value.pathEnd_plain v hv) s rfl hs).congr fun w σ _ _ =>
    (Meaning.evaluate_plain (w.scope σ) v hv).symm

section Assignments

variable {idioms : List Idiom}

/-- A value is stored after the place was evaluated. -/
theorem computes_writeHeap {place : Value} {value : Expr} (hplace : place.plain idioms)
    (hidioms : s.program.idioms = idioms) (hs : s.Proper)
    (hvalue : Steady s.program.supply.next (M.valueIn value)) :
    Computes M (writeHeap place value)
      (fun w σ => M.store (w.scope σ) place (M.valueIn value w σ)) (fun _ _ _ => ()) [] s := by
  cases place with
  | field base field =>
    exact computes_writeField hvalue (operand_computes base hplace s hidioms hs)
  | staticField field => exact computes_writeStatic
  | element base index =>
    obtain ⟨hbase, hindex⟩ := Bool.and_eq_true_iff.mp hplace
    exact computes_writeElement hvalue (operand_computes base hbase s hidioms hs)
      (.scope fun scope => M.eval scope index) fun t hst =>
        operand_computes index hindex t (hst.program.idioms.trans hidioms) (hst.proper hs)
  | _ => exact .fail rfl

/-- An assignment to a heap location evaluates the value first. -/
theorem computes_assign_heap {place source : Value} (hheap : place.isHeapLocation)
    (hplace : place.plain idioms) (hsource : source.plain idioms)
    (hidioms : s.program.idioms = idioms) (hs : s.Proper) :
    Computes M (assign place source)
      (fun w σ => M.eval (w.scope σ) source >>= M.store (w.scope σ) place) (fun _ _ _ => ()) [] s := by
  have hcomputes : Computes M (operand source >>= writeHeap place)
      (fun w σ => M.eval (w.scope σ) source >>= M.store (w.scope σ) place) (fun _ _ _ => ()) [] s :=
    (operand_computes source hsource s hidioms hs).bind (.scope fun scope => M.store scope place)
      fun e t hst he => computes_writeHeap hplace (hst.program.idioms.trans hidioms) (hst.proper hs) he
  unfold assign
  by_cases hboth : source.isHeapLocation
  · simp only [hheap, hboth, Bool.and_self, if_true]
    exact .fail_bind rfl
  · simp only [hheap, hboth, Bool.and_false]
    cases source with
    | call kind method base args =>
      simpa [assignCall, hheap, operand, intoTemp, prepare] using hcomputes
    | _ => simpa [assignOperand, hheap] using hcomputes

/-- An operand that is neither an access nor an allocation is evaluated and then stored. -/
theorem computes_copy {source : Value} {x : Var} (hnew : source.allocated? = none)
    (hsource : source.plain idioms) (hidioms : s.program.idioms = idioms) (hs : s.Proper)
    (hrole : x.role ≠ .global) (hlt : x.id < s.program.supply.next) :
    Computes M (do
        let value ← operand source
        emitHere (.assign (.var x) value)
        initObject x source)
      (fun w σ => M.eval (w.scope σ) source) (fun _ => M.valueIn (.var x)) [x] s := by
  have hinit : initObject x source = pure () := by
    unfold initObject
    rw [hnew]
  rw [hinit]
  refine ((operand_computes source hsource s hidioms hs).bind (.const pure) fun e t hst _ => ?_).congr
    fun w σ _ _ => (bind_pure _).symm
  rw [bind_pure_unit]
  exact .of_assign hrole (Nat.lt_of_lt_of_le hlt hst.program.supply) <|
    yields_emitHere fun _ _ => ⟨_, e, rfl, fun _ _ _ _ => rfl⟩

/-- An assignment to anything but a heap location asks for the variable of a local first. -/
theorem assign_local {place : Value} (hplace : place.isHeapLocation = false) (source : Value) :
    ∃ store : Var → Lower Unit, assign place source = targetVar place >>= store := by
  cases source <;> simp only [assign, assignCall, assignOperand, hplace] <;> exact ⟨_, rfl⟩

/-- An assignment to a local. -/
theorem leads_assign_slot {source : Value} {index : Nat} (hsource : source.plain idioms)
    (hidioms : s.program.idioms = idioms) (hs : s.Proper) :
    Yields (assign (.slot index) source) s fun out _ _ t => ∃ x, s.draft.locals[index]? = some x ∧
      Leads M (fun w σ => M.eval (w.scope σ) source) (M.valueIn (.var x)) [x] s out t := by
  have hlocal {store : Var → Lower Unit} (hstore : ∀ x : Var, x.role ≠ .global →
      x.id < s.program.supply.next → Computes M (store x) (fun w σ => M.eval (w.scope σ) source)
        (fun _ => M.valueIn (.var x)) [x] s) : Yields (localVar index >>= store) s fun out _ _ t =>
      ∃ x, s.draft.locals[index]? = some x ∧
        Leads M (fun w σ => M.eval (w.scope σ) source) (M.valueIn (.var x)) [x] s out t :=
    yields_localVar_bind fun x hx hslot => by
      obtain ⟨hrole, hlt⟩ := hs.locals x hx
      exact (hstore x (by simp [hrole]) hlt).mono fun _ _ _ _ _ h => ⟨x, hslot, h.2⟩
  have hlater {v : Value} (hv : v.plain idioms) {t : LoweringState} (hst : Continues s t) :
      Computes M (operand v) (fun w σ => M.eval (w.scope σ) v) M.valueIn [] t :=
    operand_computes v hv t (hst.program.idioms.trans hidioms) (hst.proper hs)
  cases source with
  | field base field =>
    exact hlocal fun x hrole hlt => computes_readField hrole hlt (hlater (v := base) hsource (.refl s))
  | staticField field => exact hlocal fun x hrole hlt => computes_readStatic hrole hlt
  | element base position =>
    obtain ⟨hbase, hposition⟩ := Bool.and_eq_true_iff.mp hsource
    exact hlocal fun x hrole hlt => computes_readElement hrole hlt (hlater hbase (.refl s))
      (.scope fun scope => M.eval scope position) fun t hst => hlater hposition hst
  | length array =>
    exact hlocal fun x hrole hlt => computes_readLength hrole hlt fun t hst =>
      hlater (v := array) hsource hst
  | call kind method base args =>
    subst hidioms
    exact hlocal fun x hrole hlt => (computes_call ⟨kind, method, base, args⟩
      (Value.pathEnd_plain (.call kind method base args) hsource) hrole hlt rfl hs
      (fun v _ hv => operand_denotes v hv) fun v _ hv => operand_denotes v hv).congr fun w σ _ _ =>
        (Meaning.evaluate_plain (w.scope σ) (.call kind method base args) hsource).symm
  | new | newArray | newMultiArray => cases hsource
  | _ => exact hlocal fun x hrole hlt => computes_copy rfl hsource hidioms hs hrole hlt

end Assignments

end Lower

/-- An assignment to a heap location leaves the scope alone. -/
theorem Meaning.assignment_heap (M : Meaning U) {place : Value} (hplace : place.isHeapLocation)
    (source : Value) (scope : Scope U) : M.assignment place source scope =
      (M.eval scope source >>= M.store scope place) >>= fun _ => pure scope := by
  cases place with
  | field | staticField | element => simp [assignment]
  | _ => cases hplace

/-- The variable that an assignment stores its value in, if that is a local. -/
def Value.assigned (place : Value) (d : Draft) : List Var :=
  match place with
  | .slot index => d.locals[index]?.toList
  | _ => []

namespace Lower

variable {idioms : List Idiom} {s t : LoweringState} {place source : Value}

/-- The statements for an operand and the expression for it have its meaning. -/
theorem operand_meaning (M : Meaning U) {v : Value} {e : Expr} (hv : v.plain idioms)
    (hidioms : s.program.idioms = idioms) (hs : s.Proper) (hrun : operand v s = .ok e t) (σ : Store U) :
    let σ' := M.run t.program (s.appended t) σ
    M.eval (t.scope σ) v σ.globals = some (M.value t.program σ' e, σ'.globals) ∧
      σ.ChangesOnly (s.created t) σ' := by
  obtain ⟨out, fin, hemits, -, hleads⟩ := (operand_computes v hv s hidioms hs).ok e t hrun
  rw [hemits.appended]
  exact hleads t (.refl t) (hemits.proper hs) σ

/-- The statements for an assignment to a heap location have its meaning. No variable of the scope is
changed. -/
theorem assign_heap_meaning (M : Meaning U) (hheap : place.isHeapLocation = true)
    (hplace : place.plain idioms) (hsource : source.plain idioms) (hidioms : s.program.idioms = idioms)
    (hs : s.Proper) (hrun : assign place source s = .ok () t) (σ : Store U) :
    let σ' := M.run t.program (s.appended t) σ
    M.assignment place source (t.scope σ) σ.globals = some (t.scope σ', σ'.globals) ∧
      σ.ChangesOnly (place.assigned t.draft ++ s.created t) σ' := by
  obtain ⟨out, fin, hemits, -, hleads⟩ :=
    (computes_assign_heap (M := M) hheap hplace hsource hidioms hs).ok () t hrun
  have ht := hemits.proper hs
  obtain ⟨heval, hchanges⟩ := hleads t (.refl t) ht σ
  have hscope : t.scope (M.run t.program out σ) = t.scope σ :=
    ht.scope_eq (by rw [hemits.temps_eq]; grind) hchanges
  rw [hemits.appended]
  refine ⟨?_, hchanges.mono (by grind)⟩
  rw [M.assignment_heap hheap, Evaluation.bind_some heval, hscope]
  rfl

/-- The statements for an assignment to a local have its meaning. The local has the value then. -/
theorem assign_slot_meaning (M : Meaning U) {index : Nat} (hsource : source.plain idioms)
    (hidioms : s.program.idioms = idioms) (hs : s.Proper)
    (hrun : assign (.slot index) source s = .ok () t) (σ : Store U) :
    let σ' := M.run t.program (s.appended t) σ
    M.assignment (.slot index) source (t.scope σ) σ.globals = some (t.scope σ', σ'.globals) ∧
      σ.ChangesOnly ((Value.slot index).assigned t.draft ++ s.created t) σ' := by
  obtain ⟨out, fin, hemits, x, hslot, hleads⟩ :=
    (leads_assign_slot (M := M) hsource hidioms hs).ok () t hrun
  have ht := hemits.proper hs
  have hslot' : t.draft.locals[index]? = some x := by rw [hemits.locals, hslot]
  obtain ⟨heval, hchanges⟩ := hleads t (.refl t) ht σ
  have hcreated : s.created t ⊆ t.draft.temps.toList := by
    rw [hemits.temps_eq]
    exact List.subset_append_right _ _
  have hscope := ht.scope_set hslot' hcreated hchanges
  have hrole : x.role ≠ .global := by simp [(ht.locals x (Array.mem_of_getElem? hslot')).1]
  have hvalue : M.valueIn (.var x) t (M.run t.program out σ) = (M.run t.program out σ).locals x.id :=
    Store.get_local ht.named hrole _
  have hlt : index < (t.scope σ).slots.length := by
    rw [LoweringState.scope, List.length_map, Array.length_toList]
    exact (Array.getElem?_eq_some_iff.mp hslot').1
  rw [hemits.appended]
  refine ⟨?_, hchanges.mono (by simp [Value.assigned, hslot'])⟩
  unfold Meaning.assignment
  rw [Evaluation.bind_some heval]
  dsimp only
  rw [if_pos hlt, hvalue, hscope]
  rfl

end Lower

/-- Lowering preserves the meaning of operands and assignments without allocations and idioms, at every
point of the lowering of a body. The statements for an operand, and then the expression for it, have the
effect and the value of the direct evaluation, and change only globals and temporaries made for them. The
statements for an assignment have the effect of evaluating the value, then the place, and storing the
value there. -/
theorem lowering_preserves_meaning (M : Meaning U) {p : Program} (hp : p.Named) {body : Body}
    {s : LoweringState} (hs : Continues (Session.startOf body p) s) :
    (∀ v e t, v.plain p.idioms → Lower.operand v s = .ok e t → ∀ σ : Store U,
      let σ' := M.run t.program (s.appended t) σ
      M.eval (t.scope σ) v σ.globals = some (M.value t.program σ' e, σ'.globals) ∧
        σ.ChangesOnly (s.created t) σ') ∧
    ∀ place source t, place.plain p.idioms → source.plain p.idioms →
      Lower.assign place source s = .ok () t → ∀ σ : Store U,
      let σ' := M.run t.program (s.appended t) σ
      M.assignment place source (t.scope σ) σ.globals = some (t.scope σ', σ'.globals) ∧
        σ.ChangesOnly (place.assigned t.draft ++ s.created t) σ' := by
  have hproper : s.Proper := hs.proper (Session.proper_startOf hp body)
  have hidioms : s.program.idioms = p.idioms := hs.program.idioms
  refine ⟨fun v e t hv hrun σ => Lower.operand_meaning M hv hidioms hproper hrun σ,
    fun place source t hplace hsource hrun σ => ?_⟩
  cases hheap : place.isHeapLocation with
  | true => exact Lower.assign_heap_meaning M hheap hplace hsource hidioms hproper hrun σ
  | false =>
    cases place with
    | slot index => exact Lower.assign_slot_meaning M hsource hidioms hproper hrun σ
    | _ =>
      -- no other operand can be assigned to
      obtain ⟨store, hstore⟩ := Lower.assign_local hheap source
      rw [hstore] at hrun
      cases hrun

/-- A body with one local. -/
def stepExample : Body where
  method := ⟨"Counter", "step", [], .prim .void⟩
  isStatic := true
  isSynchronized := false
  locals := #[⟨"x", .named "Counter"⟩]
  code := #[⟨.retVoid, .unknown⟩]

/-- The lowering of the body in its first block. -/
def stepEntered : LoweringState :=
  { Session.startOf stepExample (.new .standard) with openBlock := some Flow.entry }

/-- A field of the local. -/
def stepField : Value := .field (.slot 0) ⟨"Counter", "n", .prim .int⟩

/-- The field, and the result of a call on the field, which may change it. -/
def stepSum : Value :=
  .binary .add stepField
    (.call .static ⟨"Counter", "next", [.prim .int], .prim .int⟩ none [stepField])

/-- The assignment of the sum to the field is lowered to two reads, a call and a write, and keeps its
meaning. -/
theorem lowering_preserves_meaning_step : ∃ t,
    Lower.assign stepField stepSum stepEntered = .ok () t ∧ (stepEntered.appended t).length = 4 ∧
      ∀ (M : Meaning Int) (σ : Store Int), let σ' := M.run t.program (stepEntered.appended t) σ
        M.assignment stepField stepSum (t.scope σ) σ.globals = some (t.scope σ', σ'.globals) ∧
          σ.ChangesOnly (stepEntered.created t) σ' := by
  have hs : Continues (Session.startOf stepExample (.new .standard)) stepEntered :=
    .of_graph _ _ _ _ _ _
  obtain ⟨_, hrun⟩ := exists_ok (r := Lower.assign stepField stepSum stepEntered) (by decide +kernel)
  exact ⟨_, hrun, by decide +kernel, fun M σ => (lowering_preserves_meaning M
    (Program.named_new _) hs).2 stepField stepSum _ (by decide +kernel) (by decide +kernel) hrun σ⟩

end GuardedFlow
