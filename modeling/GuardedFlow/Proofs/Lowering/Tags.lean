import GuardedFlow.Proofs.Lowering.Allocations

/-!
# Which allocations get their type tag

An allocation that is the whole right side of an assignment to a local is followed by the write of its
type tag. All other allocations stay in the lowered operand, and no tag is written for them.
`operation_allots` lists what an operation can do with the fresh references that it evaluates.
-/

namespace GuardedFlow

/-- The operand under the casts of an operand. -/
def Value.uncast : Value → Value
  | .cast _ v => v.uncast
  | v => v

/-- The statement writes the tag of a type to the object in a variable. -/
def Program.WritesTag (p : Program) (x : Var) (ty : Ty) (stmt : Stmt) : Prop :=
  ∃ map, p.globals.lookup p.typeField.mapName = some map ∧
    stmt.kind = .assign (.cell map [.var x]) (.tag ty)

/-- The statements read the length of the array in a variable into a new temporary, after those that
evaluate the requested size, and assume that the two are equal. -/
def Program.AssumesLength (p : Program) (supply : VarSupply) (x : Var) (element : Ty) (size : Value)
    (stmts : List Stmt) : Prop :=
  ∃ evaluation requested length map read assumption s t,
    stmts = evaluation ++ [read, assumption] ∧
    Lower.operand size s = .ok requested t ∧ Emits s evaluation none t ∧
    length.role = .temporary ∧ supply.next ≤ length.id ∧
    p.globals.lookup (p.arrayClass element).1.lengthField.mapName = some map ∧
    read.kind = .assign (.var length) (.cell map [.var x]) ∧
    assumption.kind = .assume (.binary .eq (.var length) requested)

namespace Op

/-- The operand that an operation stores in a local. -/
def stored? : Op Nat → Option Value
  | .assign (.slot _) source | .identity _ source => some source
  | _ => none

/-- The type of the object that an operation creates in a local. -/
def created? : Op Nat → Option Ty
  | .assign (.slot _) source => source.allocated?
  | _ => none

/-- Whether the statements for an operation contain a fresh reference that no tag is written for. -/
def spills (idioms : List Idiom) : Op Nat → Bool
  | .assign place source =>
    if place.isHeapLocation then source.spills idioms || (source.holds || place.spills idioms)
    else
      match source with
      | .new _ | .newMultiArray .. => false
      | .newArray _ size => size.spills idioms || size.holds
      | source => source.spills idioms || source.holds
  | .identity _ v | .ret v => v.spills idioms || v.holds
  | .branch v _ | .monitorEnter v | .monitorExit v => v.spills idioms
  | .invoke call =>
    Call.spills idioms ⟨call.kind, call.method, Value.taint? idioms call.base,
      Value.taints idioms call.args⟩ false
  | _ => false

/-- Whether the guards for an operation contain a fresh reference, when the given instruction is the
next one. -/
def guards (next : Option Nat) : Op Nat → Bool
  | .branch v target => v.holds && next ≠ some target
  | _ => false

end Op

/-- What the statements of an operation do with the fresh references that it evaluates, when the
operation is lowered from a state with the given locals and supply to one with the given program. -/
inductive Allots (idioms : List Idiom) (op : Op Nat) (locals : Array Var) (supply : VarSupply)
    (p : Program) : List Stmt → Prop where
  /-- They go into other statements. -/
  | spilled {out : List Stmt} (hop : op.created? = none) (h : Spills (op.spills idioms) out) :
      Allots idioms op locals supply p out
  /-- One is stored in a local, and no tag is written. -/
  | copied {ty : Ty} {x : Var} {location : Location} {source : Value}
      (hop : op.stored? = some source) (hty : source.uncast.allocated? = some ty)
      (hspills : op.spills idioms = true) (hx : x ∈ locals) :
      Allots idioms op locals supply p [⟨location, .assign (.var x) (.alloc ty)⟩]
  /-- One is stored in a local, and its tag is written. -/
  | tagged {slot : Nat} {source : Value} {ty : Ty} {x : Var} {location : Location} {write : Stmt}
      {rest : List Stmt} (hop : op = .assign (.slot slot) source) (hty : source.allocated? = some ty)
      (hx : x ∈ locals) (hwrite : p.WritesTag x ty write) (hrest : Spills (op.spills idioms) rest)
      (hlength : ∀ element size, source = .newArray element size →
        p.AssumesLength supply x element size rest) :
      Allots idioms op locals supply p (⟨location, .assign (.var x) (.alloc ty)⟩ :: write :: rest)

namespace Value

/-- An allocation under casts holds a fresh reference. -/
theorem holds_of_uncast {v : Value} {ty : Ty} (h : v.uncast.allocated? = some ty) : v.holds := by
  induction v using Value.uncast.induct with
  | case1 ty' v ih => exact ih h
  | case2 v hcast =>
    cases v with
    | new | newArray | newMultiArray => rfl
    | cast ty' v => exact absurd rfl (hcast ty' v)
    | _ => cases h

end Value

namespace Lower

variable {idioms : List Idiom} {s t : LoweringState}

/-- An allocation is lowered to a fresh reference, also under casts. -/
theorem operand_uncast {v : Value} {ty : Ty} (h : v.uncast.allocated? = some ty)
    (s : LoweringState) : operand v s = .ok (.alloc ty) s := by
  induction v using Value.uncast.induct with
  | case1 ty' v ih => exact ih h
  | case2 v hcast =>
    cases v with
    | new | newArray | newMultiArray =>
      cases h
      rfl
    | cast ty' v => exact absurd rfl (hcast ty' v)
    | _ => cases h

/-- A temporary is no whole fresh reference. -/
theorem intoTemp_ok {ty ty' : Ty} {evaluate : Var → Lower Unit}
    (h : intoTemp ty evaluate s = .ok (.alloc ty') t) : False := by
  obtain ⟨temp, u, -, h₁⟩ := bind_ok h
  obtain ⟨_, w, -, h₂⟩ := bind_ok h₁
  cases h₂

/-- An operand that is lowered to a whole fresh reference is an allocation under casts. -/
theorem uncast_of_operand {v : Value} {ty : Ty} (h : operand v s = .ok (.alloc ty) t) :
    v.uncast.allocated? = some ty := by
  induction v using Value.uncast.induct with
  | case1 ty' v ih => exact ih h
  | case2 v hcast =>
    cases v with
    | new | newArray | newMultiArray =>
      cases h
      rfl
    | cast ty' v => exact absurd rfl (hcast ty' v)
    | const => cases h
    | length array | call => exact (intoTemp_ok h).elim
    | field | staticField | element =>
      obtain ⟨_, u, -, h₁⟩ := bind_ok h
      exact (intoTemp_ok h₁).elim
    | slot | unary | parameter | receiver | caughtException =>
      obtain ⟨_, u, -, h₁⟩ := bind_ok h
      cases h₁
    | binary | instanceOf =>
      obtain ⟨_, u, -, h₁⟩ := bind_ok h
      obtain ⟨_, w, -, h₂⟩ := bind_ok h₁
      cases h₂

/-- The variable of a local is one of the locals. -/
theorem yields_localVar {slot : Nat} {Q : List Stmt → Option PathEnd → Var → LoweringState → Prop}
    (h : ∀ x ∈ s.draft.locals, s.draft.locals[slot]? = some x → Q [] none x s) :
    Yields (localVar slot) s Q :=
  yields_found (·.locals[slot]?) (.undeclaredLocal slot) rfl (fun d => by cases d.locals[slot]? <;> rfl)
    fun x hx => h x (Array.mem_of_getElem? hx) hx

/-- What is left of a step after the variable of a local was found. -/
theorem yields_localVar_bind {α : Type} {slot : Nat} {f : Var → Lower α}
    {Q : List Stmt → Option PathEnd → α → LoweringState → Prop}
    (h : ∀ x ∈ s.draft.locals, s.draft.locals[slot]? = some x → Yields (f x) s Q) :
    Yields (localVar slot >>= f) s Q :=
  (yields_localVar (Q := fun out fin x t => out = [] ∧ fin = none ∧ t = s ∧ x ∈ s.draft.locals ∧
      s.draft.locals[slot]? = some x) fun x hx hslot => ⟨rfl, rfl, rfl, hx, hslot⟩).bind
    fun _ _ x t _ hx => by
      obtain ⟨rfl, rfl, rfl, hx, hslot⟩ := hx
      exact h x hx hslot

/-- An operand that is stored in a local leaks its fresh references, or it is one as a whole. -/
theorem allots_store {op : Op Nat} {source : Value} {x : Var} (hs : s.program.idioms = idioms)
    (hs' : s.Proper) (hx : x ∈ s.draft.locals) (hop : op.stored? = some source)
    (hcreated : op.created? = none) (hspills : op.spills idioms = (source.spills idioms || source.holds)) :
    Yields (do
      let value ← operand source
      emitHere (.assign (.var x) value)) s
      fun out _ _ t => Allots idioms op s.draft.locals s.program.supply t.program out := by
  cases hty : source.uncast.allocated? with
  | some ty =>
    have hholds := source.holds_of_uncast hty
    have hoperand : Yields (operand source) s fun out fin e t =>
        out = [] ∧ fin = none ∧ e = .alloc ty ∧ t = s :=
      .of_ok (operand_uncast hty s) (.refl s) ⟨rfl, rfl, rfl, rfl⟩
    refine hoperand.bind fun _ _ _ t _ he => ?_
    obtain ⟨rfl, rfl, rfl, rfl⟩ := he
    exact yields_emitHere fun _ _ => .copied hop hty (by rw [hspills, hholds, Bool.or_true]) hx
  | none =>
    have hoperand := operand_leaks source hs hs'
    have hwhole : Yields (operand source) s fun out _ e _ =>
        Spills (source.spills idioms) out ∧ e.allocates = source.holds ∧ ∀ ty, e ≠ .alloc ty := by
      refine ⟨fun e t hrun => ?_, hoperand.error⟩
      obtain ⟨out, fin, hemits, hout, he⟩ := hoperand.ok e t hrun
      refine ⟨out, fin, hemits, hout, he, fun ty heq => ?_⟩
      rw [heq] at hrun
      rw [uncast_of_operand hrun] at hty
      contradiction
    refine hwhole.bind fun out _ e t _ he => yields_emitHere fun _ _ => .spilled hcreated ?_
    rw [hspills]
    exact he.1.append (.stmt (StmtKind.fresh?_assign he.2.2) (by rw [← he.2.1]; rfl))

/-- The write of a type tag to a variable. -/
theorem yields_writeTag {x : Var} {ty : Ty} {Q : List Stmt → Option PathEnd → Unit → LoweringState → Prop}
    (h : ∀ map t, t.program.globals.lookup s.program.typeField.mapName = some map →
      Q [⟨s.draft.location, .assign (.cell map [.var x]) (.tag ty)⟩] none () t) :
    Yields (writeTag (.var x) ty) s Q := by
  refine .read_bind rfl <| yields_writeField
    (B := fun out fin e u => out = [] ∧ fin = none ∧ e = .var x ∧ u = s)
    (.pure ⟨rfl, rfl, rfl, rfl⟩) fun out fin e u _ he map w hmap _ => ?_
  obtain ⟨rfl, rfl, rfl, rfl⟩ := he
  exact h map w hmap

/-- The length of an array is read into a new temporary, and assumed to be the value of an expression. -/
theorem yields_compareLength (x : Var) (element : Ty) (requested : Expr) :
    Yields (do
      let length ← freshTemp "$arrSizeLocal" .int
      let arrays ← arrayClass element
      readField (pure (.var x)) arrays.lengthField length
      emitHere (.assume (.binary .eq (.var length) requested))) s
      fun out _ _ t => s.openBlock.isSome ∧ ∃ length map location location',
        out = [⟨location, .assign (.var length) (.cell map [.var x])⟩,
          ⟨location', .assume (.binary .eq (.var length) requested)⟩] ∧
        t.program.globals.lookup (t.program.arrayClass element).1.lengthField.mapName = some map ∧
        length ∈ t.draft.temps ∧ length.role = .temporary ∧ s.program.supply.next ≤ length.id := by
  refine (yields_freshTemp (Q := fun out _ v u => out = [] ∧ v ∈ u.draft.temps ∧ v.role = .temporary ∧
    v.id = s.program.supply.next) fun v p hv _ => by simp [hv]).bind fun _ _ length u hsu hlength => ?_
  obtain ⟨rfl, htemp, hrole, hid⟩ := hlength
  refine (yields_arrayClass (Q := fun out _ a _ => out = [] ∧ a = (u.program.arrayClass element).1)
    ⟨rfl, rfl⟩).bind fun _ _ arrays v huv harrays => ?_
  obtain ⟨rfl, rfl⟩ := harrays
  refine (yields_readField (B := fun out fin e w => out = [] ∧ fin = none ∧ e = .var x ∧ w = v)
    (Q := fun out _ _ w => ∃ map location, w.program.globals.lookup
        (u.program.arrayClass element).1.lengthField.mapName = some map ∧
      out = [⟨location, .assign (.var length) (.cell map [.var x])⟩])
    (.pure ⟨rfl, rfl, rfl, rfl⟩) fun out fin e w _ he map w' hmap _ => ?_).bind
    fun read _ _ w hvw hread => ?_
  · obtain ⟨rfl, rfl, rfl, rfl⟩ := he
    exact ⟨map, _, hmap, rfl⟩
  · obtain ⟨map, location, hmap, rfl⟩ := hread
    refine yields_emitHere fun block hblock => ?_
    -- the block that is open at the end has been open from the start
    obtain ⟨-, hopen⟩ := hvw.still_open hblock
    obtain ⟨-, hopen'⟩ := huv.still_open hopen
    obtain ⟨-, hopen''⟩ := hsu.still_open hopen'
    have huw := huv.toContinues.trans hvw.toContinues
    obtain ⟨new, hnew, -⟩ := huw.temps
    refine ⟨by rw [hopen'']; rfl, length, map, location, _, rfl, ?_, ?_, hrole, Nat.le_of_eq hid.symm⟩
    · rw [huw.program.arrays element]
      exact hmap
    · exact Array.mem_toList_iff.mp (hnew ▸ List.mem_append_left _ (Array.mem_toList_iff.mpr htemp))

/-- The length of a new array is read after its size was evaluated, and assumed to be that size. -/
theorem yields_assumeLength (x : Var) (element : Ty) (size : Value)
    (hs : s.program.idioms = idioms) (hs' : s.Proper) :
    Yields (do
      let requested ← operand size
      let length ← freshTemp "$arrSizeLocal" .int
      let arrays ← arrayClass element
      readField (pure (.var x)) arrays.lengthField length
      emitHere (.assume (.binary .eq (.var length) requested))) s
      fun out _ _ t => Spills (size.spills idioms || size.holds) out ∧
        t.program.AssumesLength s.program.supply x element size out := by
  have hsize := operand_leaks size hs hs'
  have hoperand : Yields (operand size) s fun out fin e t => Spills (size.spills idioms) out ∧
      e.allocates = size.holds ∧ operand size s = .ok e t ∧ Emits s out fin t :=
    ⟨fun e t hrun =>
      have ⟨out, fin, hemits, hout, he⟩ := hsize.ok e t hrun
      ⟨out, fin, hemits, hout, he, hrun, hemits⟩, hsize.error⟩
  refine hoperand.bind fun evaluation fin requested t hst hrequested => ?_
  obtain ⟨hevaluation, hholds, hrun, -⟩ := hrequested
  refine (yields_compareLength x element requested).mono fun _ _ _ u _ hcompared => ?_
  obtain ⟨hopen, length, map, location, location', rfl, hmap, -, hrole, hlow⟩ := hcompared
  constructor
  · have hread : Spills false [⟨location, .assign (.var length) (.cell map [.var x])⟩] := .stmt rfl rfl
    exact hevaluation.append (hread.append (.stmt rfl (by rw [← hholds]; rfl)))
  · -- a block is open when the length is read, so the evaluation of the size did not end the path
    obtain ⟨block, hblock⟩ := Option.isSome_iff_exists.mp hopen
    obtain ⟨rfl, -⟩ := hst.still_open hblock
    exact ⟨evaluation, requested, length, map, _, _, s, t, rfl, hrun, hst, hrole,
      Nat.le_trans hst.program.supply hlow, hmap, rfl, rfl⟩

/-- A local that is set to an allocation gets its type tag, and a new array its length. -/
theorem allots_create {slot : Nat} {source : Value} {ty : Ty} {x : Var}
    (hs : s.program.idioms = idioms) (hs' : s.Proper) (hx : x ∈ s.draft.locals)
    (hty : source.allocated? = some ty) :
    Yields (do
      let value ← operand source
      emitHere (.assign (.var x) value)
      initObject x source) s
      fun out _ _ t => Allots idioms (.assign (.slot slot) source) s.draft.locals s.program.supply
        t.program out := by
  have hcast : source.uncast = source := by cases source <;> first | rfl | cases hty
  have hoperand : Yields (operand source) s fun out fin e t =>
      out = [] ∧ fin = none ∧ e = .alloc ty ∧ t = s :=
    .of_ok (operand_uncast (hcast.symm ▸ hty) s) (.refl s) ⟨rfl, rfl, rfl, rfl⟩
  refine hoperand.bind fun _ _ _ t _ he => ?_
  obtain ⟨rfl, rfl, rfl, rfl⟩ := he
  refine (yields_emitHere (Q := fun out _ _ _ => out = [⟨t.draft.location, .assign (.var x) (.alloc ty)⟩])
    fun _ _ => rfl).bind fun _ _ _ u htu hout => ?_
  subst hout
  unfold initObject
  rw [hty]
  have htag : Yields (writeTag (.var x) ty) u fun out _ _ w => ∃ write, out = [write] ∧
      ∃ map, w.program.globals.lookup u.program.typeField.mapName = some map ∧
        write.kind = .assign (.cell map [.var x]) (.tag ty) :=
    yields_writeTag fun map w hmap => ⟨_, rfl, map, hmap, rfl⟩
  refine htag.bind fun _ _ _ w huw hwrite => ?_
  obtain ⟨write, rfl, map, hmap, hkind⟩ := hwrite
  have hwrites (p : Program) (hp : w.program.Grows p) : p.WritesTag x ty write := by
    refine ⟨map, ?_, hkind⟩
    rw [(huw.program.trans hp).typeField]
    exact hp.globals _ _ hmap
  cases source with
  | new ty' =>
    exact .pure (.tagged rfl hty hx (hwrites _ (.refl _)) .nil fun _ _ h => by cases h)
  | newMultiArray ty' sizes =>
    exact .pure (.tagged rfl hty hx (hwrites _ (.refl _)) .nil fun _ _ h => by cases h)
  | newArray element size =>
    have hw := htu.program.trans huw.program
    have hlength := yields_assumeLength x element size (hw.idioms.trans hs)
      ((htu.toContinues.trans huw.toContinues).proper hs')
    refine hlength.mono fun out _ _ t' hwt hout => ?_
    refine .tagged rfl hty hx (hwrites _ hwt.program) hout.1 fun element' size' h => ?_
    cases h
    obtain ⟨evaluation, requested, length, map, read, assumption, u₁, u₂, hout', hrun, hemits, hrole,
      hlow, hrest⟩ := hout.2
    exact ⟨evaluation, requested, length, map, read, assumption, u₁, u₂, hout', hrun, hemits, hrole,
      Nat.le_trans hw.supply hlow, hrest⟩
  | _ => cases hty

/-- What a step does with fresh references that go into the same statements whether they are the value of
a local or not. -/
theorem Traces.allots {m : Lower Unit} {op : Op Nat} {P : Unit → Prop}
    (h : Traces s m (op.events s.program.idioms) P) (hs : s.Proper) (hop : op.created? = none)
    (hfrees : ∀ stores, Event.frees stores (op.events s.program.idioms) = op.spills s.program.idioms) :
    Yields m s fun out _ _ t =>
      Allots s.program.idioms op s.draft.locals s.program.supply t.program out :=
  (h.yields s (.refl s)).mono fun _ _ _ _ _ ⟨_, hwent, _⟩ =>
    .spilled hop (.of_shows hwent.shows hs hfrees)

/-- What an assignment to a local does with fresh references. The result of a read or a call holds none; an
operand that is evaluated is created in the local, or stored there. -/
theorem allots_assignSlot (slot : Nat) (source : Value) (hs : s.Proper) :
    Yields (assign (.slot slot) source) s fun out _ _ t => Allots s.program.idioms
      (.assign (.slot slot) source) s.draft.locals s.program.supply t.program out := by
  cases hread : isRead source with
  | true =>
    refine (traces_assign (.slot slot) source).allots hs ?_ fun stores => ?_
    · cases source <;> first | rfl | cases hread
    · cases source with
      | field | staticField | element | length | call =>
        simp [Op.events, Op.spills, Value.isHeapLocation, Value.assignEvents, Value.frees_events, Value.holds]
      | _ => cases hread
  | false =>
    rw [assign_slot_eq slot hread]
    refine yields_localVar_bind fun x hx _ => ?_
    cases hty : source.allocated? with
    | some ty => exact allots_create rfl hs hx hty
    | none =>
      have hdone : initObject x source = pure () := by
        unfold initObject
        rw [hty]
      have hspills : (Op.assign (.slot slot) source).spills s.program.idioms =
          (source.spills s.program.idioms || source.holds) := by
        cases source <;> first | rfl | cases hty
      have hstore := @allots_store _ s (.assign (.slot slot) source) source x rfl hs hx rfl hty hspills
      simpa only [hdone, bind_pure_unit] using hstore

/-- What an assignment does with fresh references. -/
theorem allots_assign (place source : Value) (hs : s.Proper) :
    Yields (assign place source) s fun out _ _ t => Allots s.program.idioms (.assign place source)
      s.draft.locals s.program.supply t.program out := by
  cases hplace : place.isHeapLocation with
  | true =>
    refine (traces_assign place source).allots hs (by cases place <;> first | rfl | cases hplace) fun stores => ?_
    change Event.frees stores (if place.isHeapLocation then _ else _) = if place.isHeapLocation then _ else _
    rw [if_pos hplace, if_pos hplace, Event.frees_append, source.frees_events, Value.frees_writeEvents hplace]
  | false =>
    by_cases hslot : ∃ slot, place = .slot slot
    · obtain ⟨slot, rfl⟩ := hslot
      exact allots_assignSlot slot source hs
    · exact .of_error (assign_run_notAssignable hplace (fun slot h => hslot ⟨slot, h⟩) source s) (.refl s)
        (.check _ rfl)

/-- What an operation that does not jump does with the fresh references that it evaluates. -/
theorem operation_allots (index : Nat) (op : Op Nat) (hjump : op.jumpTargets = [])
    (hs : s.program.idioms = idioms) (hs' : s.Proper) :
    Yields (operation index op) s fun out _ _ t =>
      Allots idioms op s.draft.locals s.program.supply t.program out := by
  subst hs
  have htraces := operation_traces (s := s) index op hjump
  cases op with
  | assign place source => exact allots_assign place source hs'
  | identity slot source => exact yields_localVar_bind fun x hx _ => allots_store rfl hs' hx rfl rfl rfl
  | invoke source =>
    refine htraces.allots hs' rfl fun stores => ?_
    rw [Op.events, Call.frees_events, Op.spills, Call.map, Value.taints_traces, Value.taint?_trace?]
  | ret _ | monitorEnter _ | monitorExit _ =>
    refine htraces.allots hs' rfl fun stores => ?_
    simp [Op.events, Op.spills, Value.frees_events, Event.counts]
  | retVoid | nop | breakpoint | subroutineReturn _ | throw _ => exact htraces.allots hs' rfl fun _ => rfl
  | _ => simp [Op.jumpTargets] at hjump

end Lower

end GuardedFlow
