import GuardedFlow.Proofs.Lowering.NormalForm

/-!
# What the statements of an instruction may read and write

While an instruction is lowered, a statement reads the declared variables of the body and the temporaries
that earlier statements of the same instruction have set. It sets a local, the result, or a temporary
that is set nowhere else. `Orderly` states this for a sequence of statements, together with the accesses
to the heap that they are. `Acts` is a calculus for it. A step that gets a destination has to set it, if
the path goes on; all other temporaries that it sets have numbers that were handed out while it ran.
-/

namespace GuardedFlow

/-! ### Numbers -/

namespace LoweringState

/-- No two variables have the same number, globals included. -/
structure Numbered (s : LoweringState) : Prop where
  program : s.program.Numbered
  apart : ∀ v ∈ s.draft.variables, ∀ name w, s.program.globals.lookup name = some w → w.id ≠ v.id

namespace Numbered

variable {s t : LoweringState}

/-- A step that neither adds a global nor a variable to the body. -/
theorem congr (h : s.Numbered) (hglobals : t.program.globals = s.program.globals)
    (hsupply : s.program.supply.next ≤ t.program.supply.next)
    (hvariables : t.draft.variables = s.draft.variables) : t.Numbered where
  program := h.program.congr hglobals hsupply
  apart v hv name w hw := h.apart v (hvariables ▸ hv) name w (hglobals ▸ hw)

/-- A new variable of the body gets the next number. -/
theorem mint (h : s.Numbered) (hglobals : t.program.globals = s.program.globals)
    (hsupply : s.program.supply.next ≤ t.program.supply.next)
    (hvariables : ∀ v ∈ t.draft.variables, v ∈ s.draft.variables ∨ v.id = s.program.supply.next) :
    t.Numbered where
  program := h.program.congr hglobals hsupply
  apart v hv name w hw := by
    rw [hglobals] at hw
    rcases hvariables v hv with hold | hnew
    · exact h.apart v hold name w hw
    · exact hnew ▸ Nat.ne_of_lt (h.program.used name w hw)

/-- A new global gets the next number. -/
theorem global (h : s.Numbered) (hs : s.Proper) (name : String) (ty : Ty) :
    Numbered { s with program := stateAfter (Session.global name ty s.program) } where
  program := h.program.global name ty
  apart v hv other w hw := by
    rcases Program.lookup_stateAfter_global hw with hold | ⟨-, hid, -⟩
    · exact h.apart v hv other w hold
    · exact hid ▸ (Nat.ne_of_lt (hs.id_lt hv)).symm

end Numbered

end LoweringState

/-- The variables of a body stay. -/
theorem Continues.variables {s t : LoweringState} (h : Continues s t) {v : Var}
    (hv : v ∈ s.draft.variables) : v ∈ t.draft.variables := by
  obtain ⟨new, hnew, -⟩ := h.temps
  simp only [Draft.variables, List.mem_append, Option.mem_toList, h.result, h.receiver, h.params, h.locals,
    hnew] at hv ⊢
  rcases hv with (hv | hv) | hv
  · exact .inl (.inl hv)
  · exact .inl (.inr (.inl hv))
  · exact .inr (h.exception v hv)

/-! ### Reading and writing -/

/-- One of the statements sets the variable. -/
def Defined (done : List Stmt) (v : Var) : Prop := ∃ stmt ∈ done, v ∈ stmt.defs

/-- What is defined stays defined. -/
theorem Defined.append {done : List Stmt} {v : Var} (h : Defined done v) (more : List Stmt) :
    Defined (done ++ more) v :=
  let ⟨stmt, hstmt, hv⟩ := h
  ⟨stmt, List.mem_append_left _ hstmt, hv⟩

/-- A variable is defined before a statement or by it. -/
theorem defined_append_singleton {done : List Stmt} {stmt : Stmt} {v : Var} :
    Defined (done ++ [stmt]) v ↔ Defined done v ∨ v ∈ stmt.defs := by
  simp [Defined, or_and_right, exists_or]

/-- The variable may be read when the given statements of an instruction were run. -/
structure Draft.Readable (d : Draft) (done : List Stmt) (v : Var) : Prop where
  declared : v ∈ d.variables
  kept : v.role ≠ .result
  defined : v.role = .temporary → Defined done v

/-- The variable may be set when the given statements of an instruction were run. The numbers of its
temporaries begin with `first`. -/
structure Draft.Writable (d : Draft) (first : Nat) (done : List Stmt) (v : Var) : Prop where
  declared : v ∈ d.variables
  role : v.role = .declared ∨ v.role = .result ∨ v.role = .temporary
  fresh : v.role = .temporary → first ≤ v.id ∧ ¬ Defined done v

/-- After the statements `done` of an instruction, these statements follow. Each of them is in normal
form, and those that access the heap make the given accesses, in order. -/
inductive Orderly (first : Nat) (t : LoweringState) : List Stmt → List Access → List Stmt → Prop where
  | nil {done : List Stmt} : Orderly first t done [] []
  | plain {done : List Stmt} {stmt : Stmt} {accesses : List Access} {out : List Stmt}
      (hstmt : stmt.kind.Plain (t.draft.Readable done) (t.draft.Writable first done))
      (hrest : Orderly first t (done ++ [stmt]) accesses out) : Orderly first t done accesses (stmt :: out)
  | access {done : List Stmt} {access : Access} {stmt : Stmt} {accesses : List Access} {out : List Stmt}
      (hstmt : access.LoweredTo t.program (t.draft.Readable done) (t.draft.Writable first done) stmt.kind)
      (hrest : Orderly first t (done ++ [stmt]) accesses out) :
      Orderly first t done (access :: accesses) (stmt :: out)

section Growth

variable {first : Nat} {s t : LoweringState} {done done' out out' : List Stmt} {accesses accesses' : List Access}
  {v : Var}

/-- A variable that may be read may be read later on. -/
theorem Draft.Readable.mono (h : s.draft.Readable done v) (hst : Continues s t)
    (hdone : Defined done v → Defined done' v) : t.draft.Readable done' v :=
  ⟨hst.variables h.declared, h.kept, fun hrole => hdone (h.defined hrole)⟩

/-- A variable that may be set may be set later on. -/
theorem Draft.Writable.mono (h : s.draft.Writable first done v) (hst : Continues s t) :
    t.draft.Writable first done v :=
  ⟨hst.variables h.declared, h.role, h.fresh⟩

/-- Statements are in order of a later state as well. -/
theorem Orderly.mono (h : Orderly first s done accesses out) (hst : Continues s t) :
    Orderly first t done accesses out := by
  induction h with
  | nil => exact .nil
  | plain hstmt _ ih => exact .plain (hstmt.mono (fun _ h => h.mono hst id) fun _ h => h.mono hst) ih
  | access hstmt _ ih =>
    exact .access (hstmt.mono hst.program (fun _ h => h.mono hst id) fun _ h => h.mono hst) ih

/-- Statements in order, one part after the other. -/
theorem Orderly.append (h : Orderly first t done accesses out)
    (h' : Orderly first t (done ++ out) accesses' out') :
    Orderly first t done (accesses ++ accesses') (out ++ out') := by
  induction h with
  | nil => simpa using h'
  | plain hstmt _ ih => exact .plain hstmt (ih (by simpa using h'))
  | access hstmt _ ih => exact .access hstmt (ih (by simpa using h'))

end Growth

/-! ### Stages -/

/-- A state of the lowering of a body, in a program that has grown from the given one. -/
structure LoweringState.Within (p : Program) (body : Body) (s : LoweringState) : Prop where
  program : p.Grows s.program
  body : s.draft.body = body
  proper : s.Proper

/-- What follows such a state is another one. -/
theorem LoweringState.Within.continues {p : Program} {body : Body} {s t : LoweringState}
    (h : s.Within p body) (hst : Continues s t) : t.Within p body :=
  ⟨h.program.trans hst.program, hst.body.trans h.body, hst.proper h.proper⟩

/-- A stage of the lowering of an instruction: the state, and the statements of the instruction that are
there already. -/
structure Stage where
  state : LoweringState
  done : List Stmt

namespace Stage

/-- A stage of the lowering of an instruction of a body, in a program that has grown from the given
one. -/
structure Inside (p : Program) (body : Body) (first : Nat) (c : Stage) : Prop where
  within : c.state.Within p body
  numbered : c.state.Numbered
  first : first ≤ c.state.program.supply.next
  defined : ∀ v, v.role = .temporary → Defined c.done v → v.id < c.state.program.supply.next

/-- A later stage of the same instruction. The temporaries that were set in between are new, apart from
the destination. -/
structure Reaches (dest : Option Var) (c c' : Stage) : Prop where
  continues : Continues c.state c'.state
  numbered : c'.state.Numbered
  isOpen : c'.state.openBlock.isSome → c.state.openBlock.isSome
  defined : ∀ v, Defined c.done v → Defined c'.done v
  fresh : ∀ v, v.role = .temporary → Defined c'.done v → Defined c.done v ∨ v ∈ dest ∨
    c.state.program.supply.next ≤ v.id ∧ v.id < c'.state.program.supply.next

/-- The destination may be set at this stage. -/
structure Awaits (first : Nat) (dest : Option Var) (c : Stage) : Prop where
  writable : ∀ v ∈ dest, c.state.draft.Writable first c.done v
  used : ∀ v ∈ dest, v.id < c.state.program.supply.next

/-- What a statement may read at this stage. -/
abbrev Reads (c : Stage) : Var → Prop := c.state.draft.Readable c.done

/-- What a statement may set at this stage. -/
abbrev Sets (first : Nat) (c : Stage) : Var → Prop := c.state.draft.Writable first c.done

/-- The destination was set, if the path goes on. -/
def Settled (dest : Option Var) (c : Stage) : Prop :=
  c.state.openBlock.isSome → ∀ v ∈ dest, Defined c.done v

/-- If the path goes on, the expression is built from variables that may be read. -/
def Held (c : Stage) (e : Expr) : Prop :=
  c.state.openBlock.isSome → e.Over c.Reads

variable {p : Program} {body : Body} {first : Nat} {dest : Option Var} {c c' c'' : Stage} {e : Expr}

namespace Reaches

/-- Later stages follow one another. -/
theorem trans (h : c.Reaches dest c') (h' : c'.Reaches dest c'') : c.Reaches dest c'' where
  continues := h.continues.trans h'.continues
  numbered := h'.numbered
  isOpen ho := h.isOpen (h'.isOpen ho)
  defined v hv := h'.defined v (h.defined v hv)
  fresh v hrole hv := by
    have hsupply := h.continues.program.supply
    have hsupply' := h'.continues.program.supply
    rcases h'.fresh v hrole hv with hv | hv | hv
    · exact (h.fresh v hrole hv).imp_right <| Or.imp_right fun hv => by omega
    · exact .inr (.inl hv)
    · exact .inr (.inr (by omega))

/-- Steps that do not get a destination may run where there is one. -/
theorem weaken (h : c.Reaches none c') : c.Reaches dest c' :=
  { h with fresh := fun v hrole hv => (h.fresh v hrole hv).imp_right (Or.imp_left (by simp)) }

/-- A destination with a new number counts among the new temporaries. -/
theorem narrow (h : c.Reaches dest c') (hdest : ∀ v ∈ dest,
    c.state.program.supply.next ≤ v.id ∧ v.id < c'.state.program.supply.next) : c.Reaches none c' := by
  refine { h with fresh := fun v hrole hv => ?_ }
  exact (h.fresh v hrole hv).imp_right fun hv => .inr (hv.elim (hdest v) id)

/-- A destination that only served the steps in between counts among the new temporaries. -/
theorem forget {temp : Var} (h : c.Reaches none c') (h' : c'.Reaches (some temp) c'')
    (hlow : c.state.program.supply.next ≤ temp.id) (hhigh : temp.id < c'.state.program.supply.next) :
    c.Reaches dest c'' := by
  have hboth : c.Reaches (some temp) c'' := h.weaken.trans h'
  refine (hboth.narrow fun v hv => ?_).weaken
  cases hv
  exact ⟨hlow, Nat.lt_of_lt_of_le hhigh h'.continues.program.supply⟩

end Reaches

/-- The next stage of the same instruction. -/
theorem Inside.reach (h : c.Inside p body first) (hdest : ∀ v ∈ dest, v.id < c.state.program.supply.next)
    (hc : c.Reaches dest c') : c'.Inside p body first where
  within := h.within.continues hc.continues
  numbered := hc.numbered
  first := Nat.le_trans h.first hc.continues.program.supply
  defined v hrole hv := by
    have hsupply := hc.continues.program.supply
    rcases hc.fresh v hrole hv with hv | hv | hv
    · exact Nat.lt_of_lt_of_le (h.defined v hrole hv) hsupply
    · exact Nat.lt_of_lt_of_le (hdest v hv) hsupply
    · exact hv.2

/-- Without a destination there is nothing to wait for. -/
theorem awaits_none (first : Nat) (c : Stage) : c.Awaits first none := by
  constructor <;> simp

/-- A destination stays unset while steps run that do not get it. -/
theorem Awaits.mono (h : c.Awaits first dest) (hc : c.Reaches none c') : c'.Awaits first dest where
  writable v hv := by
    obtain ⟨hdeclared, hrole, hfresh⟩ := h.writable v hv
    refine ⟨hc.continues.variables hdeclared, hrole, fun htemp => ⟨(hfresh htemp).1, fun hdefined => ?_⟩⟩
    have hused := h.used v hv
    rcases hc.fresh v htemp hdefined with hold | hnone | hnew
    · exact (hfresh htemp).2 hold
    · cases hnone
    · omega
  used v hv := Nat.lt_of_lt_of_le (h.used v hv) hc.continues.program.supply

/-- What may be read at some stage may be read at all later ones. -/
theorem Held.mono (h : c.Held e) (hc : c.Reaches dest c') : c'.Held e := fun ho =>
  (h (hc.isOpen ho)).mono fun v hv => hv.mono hc.continues (hc.defined v)

/-- A destination that was set may be read, unless it is the result. -/
theorem Settled.held {v : Var} (h : c.Settled (some v)) (hv : v ∈ c.state.draft.variables)
    (hrole : v.role ≠ .result) : c.Held (.var v) := fun ho => ⟨hv, hrole, fun _ => h ho v rfl⟩

/-- After the end of a path, every destination counts as settled. -/
theorem settled_of_closed (h : c.state.openBlock = none) (dest : Option Var) : c.Settled dest :=
  fun ho => by simp [h] at ho

/-- Literals are held at every stage. -/
theorem held_lit (c : Stage) (value : Literal) : c.Held (.lit value) := fun _ => trivial

/-- Fresh references are held at every stage. -/
theorem held_alloc (c : Stage) (ty : Ty) : c.Held (.alloc ty) := fun _ => trivial

/-- Operations on held operands are held. -/
theorem Held.binary {e' : Expr} (h : c.Held e) (h' : c.Held e') (op : BinaryOp) :
    c.Held (.binary op e e') := fun ho => ⟨h ho, h' ho⟩

/-- A variable of the body that is neither its result nor a temporary may always be read. -/
theorem held_var {v : Var} (hv : v ∈ c.state.draft.variables) (hresult : v.role ≠ .result)
    (htemp : v.role ≠ .temporary) : c.Held (.var v) := fun _ => ⟨hv, hresult, fun h => absurd h htemp⟩

end Stage

/-! ### The calculus -/

namespace Lower

variable {α β : Type} {p : Program} {body : Body} {first : Nat} {dest : Option Var} {c : Stage}

/-- From a stage of an instruction on, the statements of `m` are orderly and make the given accesses, and
its answer has a property at the stage that is reached. -/
def Acts (p : Program) (body : Body) (first : Nat) (dest : Option Var) (c : Stage) (m : Lower α)
    (accesses : List Access) (P : Stage → α → Prop) : Prop :=
  c.Inside p body first → Yields m c.state fun out _ a t =>
    Orderly first t c.done accesses out ∧ c.Reaches dest ⟨t, c.done ++ out⟩ ∧ P ⟨t, c.done ++ out⟩ a

/-- What is known of a run that succeeds may be added to a postcondition. -/
theorem Yields.and_run {m : Lower α} {s : LoweringState}
    {Q : List Stmt → Option PathEnd → α → LoweringState → Prop} {R : LoweringState → Prop}
    (h : Yields m s Q) (hR : ∀ a t, m s = .ok a t → R t) :
    Yields m s fun out fin a t => Q out fin a t ∧ R t where
  ok a t hrun :=
    let ⟨out, fin, hemits, hQ⟩ := h.ok a t hrun
    ⟨out, fin, hemits, hQ, hR a t hrun⟩
  error := h.error

namespace Acts

variable {m : Lower α} {f : α → Lower β} {accesses accesses' : List Access} {P : Stage → α → Prop}
  {R : Stage → β → Prop}

/-- A failure makes no access. -/
theorem fail (fault : Fault) (h : fault.isConflict = false) :
    Acts p body first dest c (fail fault : Lower α) accesses P := fun _ => .fail h

/-- Nothing comes after a failure. -/
theorem fail_bind (fault : Fault) (f : α → Lower β) (h : fault.isConflict = false) :
    Acts p body first dest c ((Lower.fail fault : Lower α) >>= f) accesses R := fun _ => .fail_bind h

/-- A step has every weaker property, too. -/
theorem mono {P' : Stage → α → Prop} (h : Acts p body first dest c m accesses P)
    (hP : ∀ c' a, c.Reaches dest c' → P c' a → P' c' a) : Acts p body first dest c m accesses P' :=
  fun hc => (h hc).mono fun _ _ _ _ _ ⟨hout, hreach, ha⟩ => ⟨hout, hreach, hP _ _ hreach ha⟩

/-- A step that sets no destination may be taken where there is one. -/
theorem weaken (h : Acts p body first none c m accesses P) : Acts p body first dest c m accesses P :=
  fun hc => (h hc).mono fun _ _ _ _ _ ⟨hout, hreach, ha⟩ => ⟨hout, hreach.weaken, ha⟩

/-- A step without statements makes no accesses. -/
theorem silent (h : c.Inside p body first →
    Yields m c.state fun out _ a t => out = [] ∧ t.Numbered ∧ P ⟨t, c.done⟩ a) :
    Acts p body first dest c m [] P := fun hc =>
  (h hc).mono fun out fin a t hemits ⟨hout, hnumbered, ha⟩ => by
    subst hout
    rw [List.append_nil]
    refine ⟨.nil, ⟨hemits.toContinues, hnumbered, fun ho => ?_, fun _ h => h, fun _ _ h => .inl h⟩, ha⟩
    obtain ⟨block, hopen⟩ := Option.isSome_iff_exists.mp ho
    rw [(hemits.still_open hopen).2]
    rfl

/-- An answer makes no access. -/
theorem pure {a : α} (h : P c a) : Acts p body first dest c (pure a) [] P :=
  .silent fun hc => .pure ⟨rfl, hc.numbered, h⟩

/-- A step that does not get the destination, in front of another one. -/
theorem bind (hm : Acts p body first none c m accesses P)
    (hf : ∀ c' a, c.Reaches none c' → P c' a → Acts p body first dest c' (f a) accesses' R) :
    Acts p body first dest c (m >>= f) (accesses ++ accesses') R := fun hc =>
  (hm hc).bind fun out fin a t _ ⟨hout, hreach, ha⟩ =>
    (hf _ a hreach ha (hc.reach (by simp) hreach)).mono
      fun out' fin' b u htu ⟨hout', hreach', hb⟩ => by
        rw [← List.append_assoc]
        exact ⟨(hout.mono htu.toContinues).append hout', hreach.weaken.trans hreach', hb⟩

/-- A step that gets the destination, in front of another one that does not. -/
theorem andThen (hm : Acts p body first dest c m accesses P) (hdest : c.Awaits first dest)
    (hf : ∀ c' a, c.Reaches dest c' → P c' a → Acts p body first none c' (f a) accesses' R) :
    Acts p body first dest c (m >>= f) (accesses ++ accesses') R := fun hc =>
  (hm hc).bind fun out fin a t _ ⟨hout, hreach, ha⟩ =>
    (hf _ a hreach ha (hc.reach hdest.used hreach)).mono
      fun out' fin' b u htu ⟨hout', hreach', hb⟩ => by
        rw [← List.append_assoc]
        exact ⟨(hout.mono htu.toContinues).append hout', hreach.trans hreach'.weaken, hb⟩

/-- A step without accesses, in front of another one. -/
theorem after (hm : Acts p body first none c m [] P)
    (hf : ∀ c' a, c.Reaches none c' → P c' a → Acts p body first dest c' (f a) accesses R) :
    Acts p body first dest c (m >>= f) accesses R := hm.bind hf

/-- An answer that is computed from that of a step. -/
theorem map {g : α → β} (hm : Acts p body first dest c m accesses P)
    (hg : ∀ c' a, c.Reaches dest c' → P c' a → R c' (g a)) :
    Acts p body first dest c (m >>= fun a => Pure.pure (g a)) accesses R := fun hc =>
  (hm hc).bind fun out fin a t _ ⟨hout, hreach, ha⟩ => .pure <| by
    rw [List.append_nil]
    exact ⟨hout, hreach, hg _ _ hreach ha⟩

/-- A step that asks for the program sees one that has grown. -/
theorem program {f : Program → Lower α}
    (h : p.Grows c.state.program → Acts p body first dest c (f c.state.program) accesses P) :
    Acts p body first dest c (Lower.program >>= f) accesses P := fun hc =>
  .read_bind rfl (h hc.within.program hc)

/-- A step that asks for the draft sees proper variables. -/
theorem draft {f : Draft → Lower α}
    (h : c.state.Proper → Acts p body first dest c (f c.state.draft) accesses P) :
    Acts p body first dest c (Lower.draft >>= f) accesses P := fun hc =>
  .read_bind rfl (h hc.within.proper hc)

/-! #### Primitive steps -/

/-- Reading the location makes no access. -/
theorem location : Acts p body first dest c location [] fun _ _ => True :=
  .silent fun hc => yields_location ⟨rfl, hc.numbered, trivial⟩

/-- An array class is asked for without an access. -/
theorem arrayClass (element : Ty) :
    Acts p body first dest c (arrayClass element) [] fun _ a => a = (p.arrayClass element).1 :=
  .silent fun hc => yields_arrayClass
    ⟨rfl, hc.numbered.congr rfl (Nat.le_refl _) rfl, hc.within.program.arrays element⟩

/-- A method is asked for without an access. -/
theorem resolve (sig : MethodSig) : Acts p body first dest c (resolve sig) [] fun _ _ => True :=
  .silent fun hc => yields_resolve ⟨rfl, hc.numbered.congr rfl (Nat.le_refl _) rfl, trivial⟩

/-- A report makes no access. -/
theorem report (severity : Severity) (category : Category) (message : String) :
    Acts p body first dest c (report severity category message) [] fun _ _ => True :=
  .silent fun hc => yields_report fun _ => ⟨rfl, hc.numbered.congr rfl (Nat.le_refl _) rfl, trivial⟩

/-- Marking the use of monitors makes no access. -/
theorem usesMonitors : Acts p body first dest c
    (modify fun s => { s with draft := { s.draft with usesMonitors := true } }) [] fun _ _ => True :=
  .silent fun hc => yields_usesMonitors ⟨rfl, hc.numbered.congr rfl (Nat.le_refl _) rfl, trivial⟩

/-- An exit of the process closes the open block. -/
theorem halt : Acts p body first dest c (setOpen none) [] fun c' _ => c'.state.openBlock = none :=
  .silent fun hc => yields_halt ⟨rfl, hc.numbered.congr rfl (Nat.le_refl _) rfl, rfl⟩

/-- A return closes the open block. -/
theorem returnVoid : Acts p body first dest c returnVoid [] fun c' _ => c'.state.openBlock = none :=
  .silent fun hc =>
    (Yields.and_run (yields_returnVoid (Q := fun out _ _ _ => out = []) fun _ _ => rfl)
      (R := fun t => t.Numbered ∧ t.openBlock = none) fun _ t hrun => by
        rw [returnVoid_run] at hrun
        cases hopen : c.state.openBlock with
        | none =>
          rw [hopen] at hrun
          cases hrun
        | some block =>
          rw [hopen] at hrun
          dsimp only at hrun
          cases hconnect : connect block Flow.sink none c.state with
          | error e u =>
            rw [hconnect] at hrun
            cases hrun
          | ok _ u =>
            rw [hconnect] at hrun
            obtain ⟨rfl, -⟩ := connect_ok hconnect
            cases hrun
            exact ⟨hc.numbered.congr rfl (Nat.le_refl _) rfl, rfl⟩).mono
      fun _ _ _ _ _ ⟨hout, hnumbered, hclosed⟩ => ⟨hout, hnumbered, hclosed⟩

/-- The variable of the caught exception may be read. -/
theorem caughtException (ty : Ty) :
    Acts p body first dest c (caughtException ty) [] fun c' v => c'.Held (.var v) :=
  .silent fun hc => yields_caughtException
    (fun v hv => ⟨rfl, hc.numbered, Stage.held_var (by simp [Draft.variables, hv])
      (by simp [(hc.within.proper.exception v hv).1]) (by simp [(hc.within.proper.exception v hv).1])⟩)
    fun v q hnone hv hq => ⟨rfl, by
      subst hv hq
      refine hc.numbered.mint rfl (Nat.le_succ _) fun w hw => ?_
      simp only [Draft.variables, hnone, Option.toList_some, Option.toList_none, List.append_nil,
        List.mem_append, List.mem_singleton] at hw ⊢
      exact hw.imp_right fun hw => by rw [hw],
    Stage.held_var (by simp [Draft.variables]) (by simp [hv]) (by simp [hv])⟩

/-- A new temporary is the destination of the steps that follow. -/
theorem temp (stem : String) (ty : Ty) {f : Var → Lower β}
    (hf : ∀ c' temp, c.Reaches none c' → temp.role = .temporary → temp.ty = ty →
      c'.Awaits first (some temp) → Acts p body first (some temp) c' (f temp) accesses R) :
    Acts p body first dest c (freshTemp stem ty >>= f) accesses R := fun hc => by
  have hfresh : Yields (freshTemp stem ty) c.state fun out _ v t => out = [] ∧ t.Numbered ∧
      v.role = .temporary ∧ v.ty = ty ∧ v.id = c.state.program.supply.next ∧
      t.program.supply.next = c.state.program.supply.next + 1 ∧ v ∈ t.draft.variables :=
    yields_freshTemp fun v q hv hq => by
      subst hv hq
      refine ⟨rfl, hc.numbered.mint rfl (Nat.le_succ _) fun w hw => ?_, rfl, rfl, rfl, rfl, ?_⟩
      · simp only [Draft.variables, Array.toList_push, List.mem_append, List.mem_singleton] at hw ⊢
        rcases hw with (hw | hw | rfl) | hw
        · exact .inl (.inl (.inl hw))
        · exact .inl (.inl (.inr hw))
        · exact .inr rfl
        · exact .inl (.inr hw)
      · simp [Draft.variables]
  refine hfresh.bind fun out fin v t hemits hv => ?_
  obtain ⟨rfl, hnumbered, hrole, hty, hid, hnext, hdeclared⟩ := hv
  have hreach : c.Reaches none ⟨t, c.done⟩ := by
    refine ⟨hemits.toContinues, hnumbered, fun ho => ?_, fun _ h => h, fun _ _ h => .inl h⟩
    obtain ⟨block, hopen⟩ := Option.isSome_iff_exists.mp ho
    rw [(hemits.still_open hopen).2]
    rfl
  have hused : v.id < t.program.supply.next := by
    rw [hid, hnext]
    exact Nat.lt_succ_self _
  -- the number was not handed out before, so that no statement can have set the temporary
  have hawaits : Stage.Awaits first (some v) ⟨t, c.done⟩ := by
    refine ⟨fun w hw => ?_, fun w hw => ?_⟩
    · cases hw
      refine ⟨hdeclared, .inr (.inr hrole), fun _ => ⟨hid ▸ hc.first, fun hdefined => ?_⟩⟩
      exact Nat.lt_irrefl _ (hid ▸ hc.defined v hrole hdefined)
    · cases hw
      exact hused
  refine (hf ⟨t, c.done⟩ v hreach hrole hty hawaits (hc.reach (by simp) hreach)).mono
    fun out' fin' b u _ h => ?_
  obtain ⟨hout', hreach', hb⟩ := h
  rw [List.nil_append]
  exact ⟨hout', hreach.forget hreach' (Nat.le_of_eq hid.symm) hused, hb⟩

/-- A request for the variable of a region. -/
theorem request {session : Session α} (region : Region) (answer : Var → α)
    (hsession : ∀ q : Program, p.Grows q →
      session q = (do return answer (← Session.global region.name region.ty)) q) :
    Acts p body first dest c (request session) [] fun c' a =>
      ∃ v, v.role = .global ∧ c'.state.program.Has region v ∧ a = answer v := .silent fun hc => by
  have hglobal : Yields (Lower.request session) c.state fun out _ a t => out = [] ∧
      ∃ v, t.program.Has region v ∧ a = answer v :=
    yields_global region.name region.ty answer (hsession _ hc.within.program)
      fun v q _ hlookup hty => ⟨rfl, v, ⟨hlookup, hty⟩, rfl⟩
  refine (hglobal.and_run (R := LoweringState.Numbered) fun a t hrun => ?_).mono
    fun out fin a t hemits ⟨⟨hout, v, hv, ha⟩, hnumbered⟩ => ?_
  · rw [request_run, hsession _ hc.within.program, bind_run] at hrun
    have hafter := hc.numbered.global hc.within.proper region.name region.ty
    cases hv : Session.global region.name region.ty c.state.program with
    | error e q =>
      rw [hv] at hrun
      cases hrun
    | ok v q =>
      rw [hv] at hrun hafter
      cases hrun
      exact hafter
  · have hnamed := (hc.within.continues hemits.toContinues).proper.named
    exact ⟨hout, hnumbered, v, (hnamed _ v hv.lookup).2, hv, ha⟩

/-- One statement goes to the open block. -/
theorem emit {stmt : Stmt}
    (h : c.state.openBlock.isSome → Orderly first c.state c.done accesses [stmt])
    (hdefs : ∀ v ∈ stmt.defs, v.role = .temporary → v ∈ dest) :
    Acts p body first dest c (emit stmt) accesses
      fun c' _ => ∀ v ∈ stmt.defs, Defined c'.done v := fun hc => by
  have hemit : Yields (Lower.emit stmt) c.state fun out _ _ t => out = [stmt] ∧
      c.state.openBlock.isSome ∧ t.Numbered :=
    yields_emit fun block hopen => ⟨rfl, by rw [hopen]; rfl, hc.numbered.congr rfl (Nat.le_refl _) rfl⟩
  refine hemit.mono fun out fin _ t hemits ⟨hout, ho, hnumbered⟩ => ?_
  subst hout
  refine ⟨(h ho).mono hemits.toContinues, ⟨hemits.toContinues, hnumbered, fun _ => ho,
    fun v hv => hv.append _, fun v hrole hv => ?_⟩, fun v hv => defined_append_singleton.mpr (.inr hv)⟩
  exact (defined_append_singleton.mp hv).imp_right fun hv => .inl (hdefs v hv hrole)

/-- A statement that accesses no heap goes to the open block. -/
theorem emitHere {kind : StmtKind} (defs : List Var)
    (h : c.state.openBlock.isSome → kind.Plain c.Reads (c.Sets first))
    (hkind : ∀ location, (⟨location, kind⟩ : Stmt).defs = defs)
    (hdefs : ∀ v ∈ defs, v.role = .temporary → v ∈ dest) :
    Acts p body first dest c (emitHere kind) [] fun c' _ => ∀ v ∈ defs, Defined c'.done v := fun hc => by
  have hemit (l : Location) : Acts p body first dest c (Lower.emit ⟨l, kind⟩) [] _ :=
    .emit (fun ho => .plain (h ho) .nil) (hkind l ▸ hdefs)
  exact .read_bind rfl <| (hemit _ hc).mono fun _ _ _ _ _ ⟨hout, hreach, hset⟩ =>
    ⟨hout, hreach, hkind _ ▸ hset⟩

/-- An access to the heap is one statement. -/
theorem access {session : Location → Session Stmt} {access : Access} (answer : Var → StmtKind)
    (hsession : ∀ location q, session location q =
      (do return (⟨location, answer (← Session.global access.region.name access.region.ty)⟩ : Stmt)) q)
    (h : ∀ c', c.Reaches none c' → c'.state.openBlock.isSome → ∀ q v, q.Has access.region v →
      access.LoweredTo q c'.Reads (c'.Sets first) (answer v))
    (hdefs : ∀ location v, v.role = .global → ∀ w ∈ (⟨location, answer v⟩ : Stmt).defs,
      w.role = .temporary → w ∈ dest)
    (hset : ∀ location v, ∀ w ∈ dest, w ∈ (⟨location, answer v⟩ : Stmt).defs) :
    Acts p body first dest c (do Lower.emit (← Lower.request (session (← Lower.location)))) [access]
      fun c' _ => c'.Settled dest := by
  refine Acts.location.after fun c₁ l hc₁ _ => ?_
  refine (Acts.request access.region (fun v => (⟨l, answer v⟩ : Stmt)) fun q _ => hsession l q).after ?_
  rintro c₂ _ hc₂ ⟨v, hrole, hv, rfl⟩
  have hemit : Acts p body first dest c₂ (Lower.emit ⟨l, answer v⟩) [access] _ :=
    .emit (fun ho => .access (h c₂ (hc₁.trans hc₂) ho _ v hv) .nil) (hdefs l v hrole)
  exact hemit.mono fun c' _ _ hdefined _ w hw => hdefined w (hset l v w hw)

end Acts

end Lower

end GuardedFlow
