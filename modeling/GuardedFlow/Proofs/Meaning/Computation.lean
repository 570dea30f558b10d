import Mathlib.Tactic.Tauto
import GuardedFlow.Proofs.Meaning.Operands

/-!
# Lowering steps that compute evaluations

A lowering step computes an evaluation if its statements change the globals as the evaluation does, and
leave its result to be read off the store. Later steps may read it much later, after statements that
change globals and new temporaries; such changes do not affect what is steady. The calculus follows the
monad: steps one after another compute evaluations one after another.
-/

namespace GuardedFlow

variable {U : Type}

namespace LoweringState

/-- The temporaries that were made between two states. -/
def created (s t : LoweringState) : List Var :=
  t.draft.temps.toList.drop s.draft.temps.size

/-- No temporary has the number of another variable that operands refer to. -/
theorem Proper.not_temp {s : LoweringState} (h : s.Proper) {v : Var}
    (hv : (v ∈ s.draft.receiver ∨ v ∈ s.draft.params ∨ v ∈ s.draft.locals) ∨ v ∈ s.draft.exception) :
    v.id ∉ s.draft.temps.toList.map Var.id := by
  have hdistinct := h.distinct
  rw [Draft.variables, List.map_append, List.map_append, List.nodup_append, List.nodup_append]
    at hdistinct
  obtain ⟨⟨-, -, hbefore⟩, -, hafter⟩ := hdistinct
  intro hmem
  rcases hv with hv | hv
  · refine hbefore v.id (List.mem_map_of_mem ?_) v.id hmem rfl
    simp only [List.mem_append, Option.mem_toList, Array.mem_toList_iff]
    tauto
  · exact hafter v.id (List.mem_append_right _ hmem) v.id
      (List.mem_map_of_mem (Option.mem_toList.mpr hv)) rfl

/-- The values that operands refer to stay when only temporaries and globals change. -/
theorem Proper.scope_eq {s : LoweringState} (h : s.Proper) {vars : List Var} {σ σ' : Store U}
    (hvars : vars ⊆ s.draft.temps.toList) (hσ : σ.ChangesOnly vars σ') : s.scope σ' = s.scope σ := by
  have hlocals (v : Var) (hv : (v ∈ s.draft.receiver ∨ v ∈ s.draft.params ∨ v ∈ s.draft.locals) ∨
      v ∈ s.draft.exception) : σ'.locals v.id = σ.locals v.id :=
    hσ.locals_eq fun hmem => h.not_temp hv (List.map_subset _ hvars hmem)
  have hslots : s.draft.locals.toList.map (σ'.locals ·.id) = s.draft.locals.toList.map (σ.locals ·.id) :=
    List.map_congr_left fun v hv => hlocals v (.inl (.inr (.inr (Array.mem_toList_iff.mp hv))))
  have hparams : s.draft.params.toList.map (σ'.locals ·.id) = s.draft.params.toList.map (σ.locals ·.id) :=
    List.map_congr_left fun v hv => hlocals v (.inl (.inr (.inl (Array.mem_toList_iff.mp hv))))
  have hreceiver : s.draft.receiver.map (σ'.locals ·.id) = s.draft.receiver.map (σ.locals ·.id) :=
    Option.map_congr fun v hv => hlocals v (.inl (.inl hv))
  have hcaught : s.draft.exception.map (σ'.locals ·.id) = s.draft.exception.map (σ.locals ·.id) :=
    Option.map_congr fun v hv => hlocals v (.inr hv)
  simp only [scope, hslots, hparams, hreceiver, hcaught]

/-- No two variables of a draft have the same number. -/
theorem Proper.eq_of_id {s : LoweringState} (h : s.Proper) {v x : Var} (hv : v ∈ s.draft.variables)
    (hx : x ∈ s.draft.variables) (hid : v.id = x.id) : v = x :=
  List.inj_on_of_nodup_map h.distinct hv hx hid

/-- Another variable that operands refer to keeps its value when a local is changed. -/
theorem Proper.locals_kept {s : LoweringState} (h : s.Proper) {vars : List Var} {σ σ' : Store U} {x v : Var}
    (hx : x ∈ s.draft.locals) (hvars : vars ⊆ s.draft.temps.toList) (hσ : σ.ChangesOnly (x :: vars) σ')
    (hv : (v ∈ s.draft.receiver ∨ v ∈ s.draft.params ∨ v ∈ s.draft.locals) ∨ v ∈ s.draft.exception)
    (hne : v ≠ x) : σ'.locals v.id = σ.locals v.id := by
  refine hσ.locals_eq fun hmem => ?_
  rcases List.mem_cons.mp hmem with hid | hmem
  · refine hne (h.eq_of_id ?_ ?_ hid)
    · simp only [Draft.variables, List.mem_append, Option.mem_toList, Array.mem_toList_iff]
      tauto
    · simp only [Draft.variables, List.mem_append, Option.mem_toList, Array.mem_toList_iff]
      tauto
  · exact h.not_temp hv (List.map_subset _ hvars hmem)

/-- The values of the locals after one of them was changed. -/
theorem Proper.slots_set {s : LoweringState} (h : s.Proper) {σ σ' : Store U} {x : Var} {index : Nat}
    (hx : s.draft.locals[index]? = some x)
    (hkept : ∀ v ∈ s.draft.locals, v ≠ x → σ'.locals v.id = σ.locals v.id) :
    s.draft.locals.toList.map (σ'.locals ·.id) =
      (s.draft.locals.toList.map (σ.locals ·.id)).set index (σ'.locals x.id) := by
  have hnodup : s.draft.locals.toList.Nodup :=
    (h.distinct.of_map Var.id).of_append_left.of_append_left.of_append_right
  obtain ⟨hlt, hget⟩ := List.getElem?_eq_some_iff.mp (Array.getElem?_toList.trans hx)
  apply List.ext_getElem?
  intro other
  rw [List.getElem?_set, List.getElem?_map, List.getElem?_map]
  by_cases hother : index = other
  · subst hother
    simpa [hx] using hlt
  · rw [if_neg hother]
    cases hv : s.draft.locals.toList[other]? with
    | none => rfl
    | some v =>
      refine congrArg some (hkept v ?_ fun heq => hother ?_)
      · exact Array.mem_toList_iff.mp (List.mem_of_getElem? hv)
      · refine (List.getElem?_inj hlt hnodup).mp ?_
        rw [hv, heq, List.getElem?_eq_getElem hlt, hget]

/-- The values that operands refer to after a local was changed. -/
theorem Proper.scope_set {s : LoweringState} (h : s.Proper) {vars : List Var} {σ σ' : Store U} {x : Var}
    {index : Nat} (hx : s.draft.locals[index]? = some x) (hvars : vars ⊆ s.draft.temps.toList)
    (hσ : σ.ChangesOnly (x :: vars) σ') :
    s.scope σ' = { s.scope σ with slots := (s.scope σ).slots.set index (σ'.locals x.id) } := by
  have hlocal : x ∈ s.draft.locals := Array.mem_of_getElem? hx
  have hrole := (h.locals x hlocal).1
  have hslots := h.slots_set hx fun v hv => h.locals_kept hlocal hvars hσ (.inl (.inr (.inr hv)))
  -- the other variables have other roles than locals
  have hkept {v : Var} (hv : (v ∈ s.draft.receiver ∨ v ∈ s.draft.params ∨ v ∈ s.draft.locals) ∨
      v ∈ s.draft.exception) (hrole' : v.role ≠ .declared) : σ'.locals v.id = σ.locals v.id :=
    h.locals_kept hlocal hvars hσ hv fun heq => hrole' (heq ▸ hrole)
  have hparams : s.draft.params.toList.map (σ'.locals ·.id) = s.draft.params.toList.map (σ.locals ·.id) :=
    List.map_congr_left fun v hv => by
      have hparam := Array.mem_toList_iff.mp hv
      obtain ⟨⟨_, hrole'⟩, -⟩ := h.params v hparam
      exact hkept (.inl (.inr (.inl hparam))) (by simp [hrole'])
  have hreceiver : s.draft.receiver.map (σ'.locals ·.id) = s.draft.receiver.map (σ.locals ·.id) :=
    Option.map_congr fun v hv => hkept (.inl (.inl hv)) (by simp [(h.receiver v hv).1])
  have hcaught : s.draft.exception.map (σ'.locals ·.id) = s.draft.exception.map (σ.locals ·.id) :=
    Option.map_congr fun v hv => hkept (.inr hv) (by simp [(h.exception v hv).1])
  simp only [scope, hslots, hparams, hreceiver, hcaught]

end LoweringState

namespace Continues

variable {s t u : LoweringState}

/-- The temporaries after a step are those before it and the created ones. -/
theorem temps_eq (h : Continues s t) :
    t.draft.temps.toList = s.draft.temps.toList ++ s.created t := by
  obtain ⟨new, hnew, -⟩ := h.temps
  simp [LoweringState.created, hnew]

/-- The created temporaries have numbers that were not used before. -/
theorem created_fresh (h : Continues s t) {v : Var} (hv : v ∈ s.created t) :
    s.program.supply.next ≤ v.id := by
  obtain ⟨new, hnew, hfresh⟩ := h.temps
  simp only [LoweringState.created, hnew, ← Array.length_toList, List.drop_left] at hv
  exact (hfresh v hv).2.1

/-- Temporaries are created one after another. -/
theorem created_trans (hst : Continues s t) (htu : Continues t u) :
    s.created u = s.created t ++ t.created u := by
  have hboth := (hst.trans htu).temps_eq
  rw [htu.temps_eq, hst.temps_eq, List.append_assoc] at hboth
  exact (List.append_cancel_left hboth).symm

end Continues

/-- A reading of the store by lowered code stays the same when the scope does and only variables with
numbers from the bound on or globals change. -/
def Steady {γ : Type} (bound : Nat) (read : LoweringState → Store U → γ) : Prop :=
  ∀ w : LoweringState, w.Proper → ∀ σ σ' : Store U, w.scope σ' = w.scope σ →
    (∀ id < bound, σ'.locals id = σ.locals id) → read w σ' = read w σ

namespace Steady

variable {γ δ ε : Type} {bound bound' : Nat} {read : LoweringState → Store U → γ}
  {read' : LoweringState → Store U → δ}

/-- A steady reading is steady after more variables were made. -/
theorem mono (h : Steady bound read) (hle : bound ≤ bound') : Steady bound' read :=
  fun w hw σ σ' hscope hlocals =>
    h w hw σ σ' hscope fun id hid => hlocals id (Nat.lt_of_lt_of_le hid hle)

/-- What does not depend on the store is steady. -/
theorem const (c : γ) : Steady bound fun (_ : LoweringState) (_ : Store U) => c :=
  fun _ _ _ _ _ _ => rfl

/-- What is evaluated in the scope is steady. -/
theorem scope (f : Scope U → γ) : Steady bound fun w (σ : Store U) => f (w.scope σ) :=
  fun _ _ _ _ hscope _ => congrArg f hscope

/-- What depends on a steady reading only is steady. -/
theorem map (h : Steady bound read) (f : γ → δ) : Steady bound fun w σ => f (read w σ) :=
  fun w hw σ σ' hscope hlocals => congrArg f (h w hw σ σ' hscope hlocals)

/-- What depends on two steady readings only is steady. -/
theorem map₂ (h : Steady bound read) (h' : Steady bound read') (f : γ → δ → ε) :
    Steady bound fun w σ => f (read w σ) (read' w σ) :=
  fun w hw σ σ' hscope hlocals =>
    congrArg₂ f (h w hw σ σ' hscope hlocals) (h' w hw σ σ' hscope hlocals)

end Steady

/-- The value of an expression in a store of a lowering. -/
def Meaning.valueIn (M : Meaning U) (e : Expr) (w : LoweringState) (σ : Store U) : U :=
  M.value w.program σ e

/-- The values of a list of expressions in a store of a lowering. -/
def Meaning.valuesIn (M : Meaning U) (es : List Expr) (w : LoweringState) (σ : Store U) : List U :=
  M.values w.program σ es

/-- The value of a variable of a body is steady. -/
theorem Meaning.steady_var (M : Meaning U) {bound : Nat} {v : Var} (hv : v.role ≠ .global)
    (hlt : v.id < bound) : Steady bound (M.valueIn (.var v)) := by
  intro w hw σ σ' _ hlocals
  change σ'.get w.program v = σ.get w.program v
  rw [Store.get_local hw.named hv, Store.get_local hw.named hv, hlocals v.id hlt]

/-- A statement that assigns an expression to a variable of a body. -/
theorem Meaning.run_assign_local (M : Meaning U) {w : LoweringState} (hw : w.Proper) {dest : Var}
    (hrole : dest.role ≠ .global) (e : Expr) (location : Location) (σ : Store U) :
    M.run w.program [⟨location, .assign (.var dest) e⟩] σ =
      { σ with locals := Function.update σ.locals dest.id (M.valueIn e w σ) } :=
  Store.set_local hw.named hrole σ _

/-- A steady reading stays the same when a later temporary is assigned to. -/
theorem Steady.assign_temp {γ : Type} {bound : Nat} {read : LoweringState → Store U → γ}
    {M : Meaning U} {w : LoweringState} {temp : Var} (h : Steady bound read) (hw : w.Proper)
    (htemp : temp ∈ w.draft.temps) (hrole : temp.role ≠ .global) (hfresh : bound ≤ temp.id) (e : Expr)
    (location : Location) (σ : Store U) : read w (M.run w.program [⟨location, .assign (.var temp) e⟩] σ) = read w σ := by
  rw [M.run_assign_local hw hrole]
  refine h w hw σ _ (hw.scope_eq ?_ (.of_local σ _ temp _)) fun id hid => ?_
  · simpa using htemp
  · exact Function.update_of_ne (Nat.ne_of_lt (Nat.lt_of_lt_of_le hid hfresh)) _ _

namespace Lower

variable {α β γ δ : Type}

/-- Statements compute an evaluation: they lead from every store to one in which the result has the value
of the evaluation and the globals are those after the evaluation. Of the other variables they only change
those of a list and temporaries that were created between two states. Globals have the names that a later
state of the lowering gives to them. -/
def Leads (M : Meaning U) (evaluation : LoweringState → Store U → Evaluation U β)
    (result : LoweringState → Store U → β) (changed : List Var) (s : LoweringState) (out : List Stmt)
    (t : LoweringState) : Prop :=
  ∀ w, Continues t w → w.Proper → ∀ σ,
    evaluation w σ σ.globals =
      some (result w (M.run w.program out σ), (M.run w.program out σ).globals) ∧
    σ.ChangesOnly (changed ++ s.created t) (M.run w.program out σ)

/-- A step computes an evaluation if its statements do, and its result is steady. -/
def Computes (M : Meaning U) (m : Lower α) (evaluation : LoweringState → Store U → Evaluation U β)
    (result : α → LoweringState → Store U → β) (changed : List Var) (s : LoweringState) : Prop :=
  Yields m s fun out _ a t =>
    Steady t.program.supply.next (result a) ∧ Leads M evaluation (result a) changed s out t

namespace Computes

variable {M : Meaning U} {m : Lower α} {s : LoweringState} {changed : List Var}
  {evaluation : LoweringState → Store U → Evaluation U β} {result : α → LoweringState → Store U → β}

/-- Another form of the evaluation. -/
theorem congr {evaluation' : LoweringState → Store U → Evaluation U β}
    (h : Computes M m evaluation' result changed s)
    (heq : ∀ w σ, Continues s w → w.Proper → evaluation w σ = evaluation' w σ) :
    Computes M m evaluation result changed s :=
  h.mono fun out fin a t hemits ⟨hsteady, hvalue⟩ => ⟨hsteady, fun w hw hproper σ => by
    rw [heq w σ (hemits.toContinues.trans hw) hproper]
    exact hvalue w hw hproper σ⟩

/-- A step that always fails. -/
theorem fail {fault : Fault} (h : fault.isConflict = false) :
    Computes M (Lower.fail fault : Lower α) evaluation result changed s :=
  Yields.fail h

/-- A step that always fails, and others that are not reached. -/
theorem fail_bind {fault : Fault} {f : γ → Lower α} (h : fault.isConflict = false) :
    Computes M (Lower.fail fault >>= f) evaluation result changed s :=
  Yields.fail_bind h

/-- A step without statements. -/
theorem pure (a : α) (hsteady : Steady s.program.supply.next (result a)) :
    Computes M (pure a) (fun w σ => pure (result a w σ)) result changed s :=
  Yields.pure ⟨hsteady, fun _ _ _ _ => ⟨rfl, fun _ h => absurd rfl h⟩⟩

/-- A step without statements, and then others. -/
theorem skip {n : Lower γ} {R : γ → LoweringState → Prop} {f : γ → Lower α}
    (hn : Yields n s fun out _ c t => out = [] ∧ R c t)
    (hf : ∀ c t, Continues s t → R c t → Computes M (f c) evaluation result changed t) :
    Computes M (n >>= f) evaluation result changed s :=
  hn.bind fun out fin c t hst ⟨hout, hc⟩ =>
    (hf c t hst.toContinues hc).mono fun out' fin' a u htu ⟨hsteady, hvalue⟩ =>
      ⟨hsteady, fun w hw hproper σ => by
        obtain ⟨heval, hchanges⟩ := hvalue w hw hproper σ
        rw [hout, List.nil_append]
        refine ⟨heval, hchanges.mono ?_⟩
        rw [hst.toContinues.created_trans htu.toContinues]
        grind⟩

/-- Steps one after another. What the second evaluation refers to has to be steady. -/
theorem bind {f : α → Lower γ} {rest : LoweringState → Store U → β → Evaluation U δ}
    {result' : γ → LoweringState → Store U → δ}
    (hm : Computes M m evaluation result [] s)
    (hrest : Steady s.program.supply.next rest)
    (hf : ∀ a t, Continues s t → Steady t.program.supply.next (result a) →
      Computes M (f a) (fun w σ => rest w σ (result a w σ)) result' changed t) :
    Computes M (m >>= f) (fun w σ => evaluation w σ >>= rest w σ) result' changed s :=
  Yields.bind hm fun out fin a t hst ⟨hsteady, hvalue⟩ =>
    (hf a t hst.toContinues hsteady).mono fun out' fin' c u htu ⟨hsteady', hvalue'⟩ =>
      ⟨hsteady', fun w hw hproper σ => by
        obtain ⟨heval, hchanges⟩ := hvalue w (htu.toContinues.trans hw) hproper σ
        obtain ⟨heval', hchanges'⟩ := hvalue' w hw hproper (M.run w.program out σ)
        have hcreated := hst.toContinues.created_trans htu.toContinues
        have hscope : w.scope (M.run w.program out σ) = w.scope σ := by
          refine hproper.scope_eq ?_ hchanges
          rw [(htu.toContinues.trans hw).temps_eq, hst.toContinues.temps_eq]
          grind
        have hbelow (id : Nat) (hid : id < s.program.supply.next) :
            (M.run w.program out σ).locals id = σ.locals id := by
          refine hchanges.locals_eq fun hmem => ?_
          obtain ⟨v, hv, rfl⟩ := List.mem_map.mp hmem
          exact Nat.not_le_of_lt hid (hst.toContinues.created_fresh hv)
        rw [M.run_append]
        refine ⟨?_, (hchanges.mono ?_).trans (hchanges'.mono ?_)⟩
        · change (evaluation w σ >>= rest w σ) σ.globals = _
          rw [Evaluation.bind_some heval, ← hrest w hproper σ _ hscope hbelow]
          exact heval'
        · rw [hcreated]
          grind
        · rw [hcreated]
          grind⟩

/-- Statements that change globals and one variable of a body. -/
theorem of_local {m : Lower Unit} {dest : Var} {evaluation : LoweringState → Store U → Evaluation U U}
    (hrole : dest.role ≠ .global) (hlt : dest.id < s.program.supply.next)
    (h : Yields m s fun out _ _ t => ∀ w, Continues t w → w.Proper → ∀ σ, ∃ u globals,
      M.run w.program out σ = ⟨globals, Function.update σ.locals dest.id u⟩ ∧
      evaluation w σ σ.globals = some (u, globals)) :
    Computes M m evaluation (fun _ => M.valueIn (.var dest)) [dest] s :=
  h.mono fun out fin _ t hst hstores =>
    ⟨M.steady_var hrole (Nat.lt_of_lt_of_le hlt hst.program.supply), fun w hw hproper σ => by
      obtain ⟨u, globals, hrun, hvalue⟩ := hstores w hw hproper σ
      have hdest : M.valueIn (.var dest) w (M.run w.program out σ) = u := by
        change (M.run w.program out σ).get w.program dest = u
        rw [hrun, Store.get_local hproper.named hrole]
        exact Function.update_self ..
      dsimp only
      rw [hdest, hvalue, hrun]
      exact ⟨rfl, (Store.ChangesOnly.of_local σ globals dest u).mono (by simp)⟩⟩

/-- A statement that assigns an expression to a variable of a body. -/
theorem of_assign {m : Lower Unit} {dest : Var} {evaluation : LoweringState → Store U → Evaluation U U}
    (hrole : dest.role ≠ .global) (hlt : dest.id < s.program.supply.next)
    (h : Yields m s fun out _ _ t => ∃ location e, out = [⟨location, .assign (.var dest) e⟩] ∧
      ∀ w, Continues t w → w.Proper → ∀ σ,
        evaluation w σ σ.globals = some (M.valueIn e w σ, σ.globals)) :
    Computes M m evaluation (fun _ => M.valueIn (.var dest)) [dest] s :=
  of_local hrole hlt <| h.mono fun out _ _ _ _ ⟨_, e, hout, hvalue⟩ w hw hproper σ => by
    refine ⟨M.valueIn e w σ, σ.globals, ?_, hvalue w hw hproper σ⟩
    rw [hout, M.run_assign_local hproper hrole]

/-- A statement that changes a global. -/
theorem of_write {m : Lower Unit} {evaluation : LoweringState → Store U → Evaluation U Unit}
    (h : Yields m s fun out _ _ t => ∀ w, Continues t w → w.Proper → ∀ σ, ∃ globals,
      M.run w.program out σ = { σ with globals } ∧ evaluation w σ σ.globals = some ((), globals)) :
    Computes M m evaluation (fun _ _ _ => ()) [] s :=
  h.mono fun out fin _ t hst hwrites => ⟨.const (), fun w hw hproper σ => by
    obtain ⟨globals, hrun, hvalue⟩ := hwrites w hw hproper σ
    rw [hrun, hvalue]
    exact ⟨rfl, .of_globals σ globals _⟩⟩

/-- An evaluation into a new temporary. -/
theorem intoTemp {ty : Ty} {evaluate : Var → Lower Unit}
    {evaluation : LoweringState → Store U → Evaluation U U}
    (h : ∀ temp t, Continues s t → temp.role ≠ .global → temp.id < t.program.supply.next →
      Computes M (evaluate temp) evaluation (fun _ => M.valueIn (.var temp)) [temp] t) :
    Computes M (intoTemp ty evaluate) evaluation M.valueIn [] s := by
  have hfresh : Yields (freshTemp "$tmp" ty) s fun out _ temp t => out = [] ∧ temp.role ≠ .global ∧
      temp.id < t.program.supply.next ∧ s.created t = [temp] :=
    yields_freshTemp fun temp p htemp hp => by
      subst htemp hp
      exact ⟨rfl, by simp, Nat.lt_succ_self _, by simp [LoweringState.created]⟩
  refine hfresh.bind fun out fin temp t hst ⟨hout, hrole, hlt, hcreated⟩ => ?_
  refine Yields.bind (h temp t hst.toContinues hrole hlt) fun out' fin' _ u htu ⟨hsteady, hvalue⟩ =>
    Yields.pure ⟨hsteady, fun w hw hproper σ => ?_⟩
  obtain ⟨heval, hchanges⟩ := hvalue w hw hproper σ
  rw [hout, List.nil_append, List.append_nil]
  refine ⟨heval, hchanges.mono ?_⟩
  rw [hst.toContinues.created_trans htu.toContinues, hcreated]
  exact List.Subset.refl _

end Computes

end Lower

end GuardedFlow
