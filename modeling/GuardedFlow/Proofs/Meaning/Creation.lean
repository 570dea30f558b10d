import GuardedFlow.Proofs.Lowering.Variables
import GuardedFlow.Proofs.Meaning.Lowering
import GuardedFlow.Proofs.Meaning.Marks

/-!
# The sizes of new arrays

An array that is assigned to a local is created before its size is evaluated: the fresh reference is
stored, the type tag is written, and then the size is evaluated and assumed to be the length. So the
length is assumed to be the value that the size has after the creation, and this is the value before it
for those sizes only that depend neither on the local nor on type tags nor on calls:
`assign_newArray_size`.
-/

namespace GuardedFlow

variable {U : Type} {M : Meaning U}

/-- The creation of an object in a local: the reference is stored, and the type tag is written. -/
def Meaning.create (M : Meaning U) (index : Nat) (ty : Ty) (scope : Scope U) :
    Evaluation U (Scope U) := do
  M.writeCell scope.typeField.mapName [M.alloc ty] (M.datum (.type ty))
  return { scope with slots := scope.slots.set index (M.alloc ty) }

/-- The store in which exactly those variables are marked that the creation of an object in a local
changes. -/
def LoweringState.marked (t : LoweringState) (index : Nat) : Store Bool where
  globals name := name == t.program.typeField.mapName
  locals id := t.draft.locals[index]?.any (·.id == id)

/-- Whether the value of an operand depends on what the creation of an object in a local changes. -/
def Value.noticesCreation (v : Value) (t : LoweringState) (index : Nat) : Bool :=
  ((Meaning.marks t.program.typeField.mapName).evaluate t.program.config (t.scope (t.marked index)) v
    (t.marked index).globals).any fun (mark, _) => mark

namespace Lower

variable {s t w : LoweringState}

/-- Statements that create an object in a variable of a body. -/
def Creates (p : Program) (x : Var) (ty : Ty) (out : List Stmt) : Prop :=
  ∃ map location location', p.globals.lookup p.typeField.mapName = some map ∧
    out = [⟨location, .assign (.var x) (.alloc ty)⟩, ⟨location', .assign (.cell map [.var x]) (.tag ty)⟩]

/-- The creation of an object in a variable. -/
theorem yields_create (x : Var) (ty : Ty) : Yields (do
      emitHere (.assign (.var x) (.alloc ty))
      writeTag (.var x) ty) s fun out _ _ t => Creates t.program x ty out := by
  refine (yields_emitHere (Q := fun out _ _ _ => out = [⟨s.draft.location, .assign (.var x) (.alloc ty)⟩])
    fun _ _ => rfl).bind fun _ _ _ u hsu hout => ?_
  subst hout
  refine Yields.mono (yields_writeTag (Q := fun out _ _ v => ∃ map location,
    v.program.globals.lookup u.program.typeField.mapName = some map ∧
      out = [⟨location, .assign (.cell map [.var x]) (.tag ty)⟩]) fun map v hmap => ⟨map, _, hmap, rfl⟩)
    fun _ _ _ v huv ⟨map, location, hmap, hout⟩ => ?_
  subst hout
  exact ⟨map, _, _, by rw [huv.program.typeField]; exact hmap, rfl⟩

/-- The assignment of a new array to a local. -/
theorem assign_newArray (index : Nat) (element : Ty) (size : Value) :
    assign (.slot index) (.newArray element size) = (do
      let x ← localVar index
      emitHere (.assign (.var x) (.alloc (.array element)))
      writeTag (.var x) (.array element)
      let requested ← operand size
      let length ← freshTemp "$arrSizeLocal" .int
      let arrays ← arrayClass element
      readField (pure (.var x)) arrays.lengthField length
      emitHere (.assume (.binary .eq (.var length) requested))) := rfl

/-- The steps of a successful assignment of a new array to a local. -/
theorem assign_newArray_ok {index : Nat} {element : Ty} {size : Value}
    (h : assign (.slot index) (.newArray element size) s = .ok () t) : ∃ x u v requested,
      s.draft.locals[index]? = some x ∧
      (do emitHere (.assign (.var x) (.alloc (.array element))); writeTag (.var x) (.array element)) s =
        .ok () u ∧
      operand size u = .ok requested v ∧
      (do
        let length ← freshTemp "$arrSizeLocal" .int
        let arrays ← arrayClass element
        readField (pure (.var x)) arrays.lengthField length
        emitHere (.assume (.binary .eq (.var length) requested))) v = .ok () t := by
  rw [assign_newArray] at h
  obtain ⟨x, s', hx, hcreate⟩ := bind_ok h
  have hlocal : Yields (localVar index) s fun _ _ x u => s.draft.locals[index]? = some x ∧ u = s :=
    yields_localVar fun _ _ hindex => ⟨hindex, rfl⟩
  obtain ⟨_, _, -, hindex, rfl⟩ := hlocal.ok x s' hx
  obtain ⟨_, u, hstore, htag⟩ := bind_ok hcreate
  obtain ⟨_, v, hwrite, hoperand⟩ := bind_ok htag
  obtain ⟨requested, w, hsize, hrest⟩ := bind_ok hoperand
  refine ⟨x, v, w, requested, hindex, ?_, hsize, hrest⟩
  rw [bind_run, hstore]
  exact hwrite

section Creation

variable {x : Var} {ty : Ty} {out : List Stmt}

/-- Statements that create an object still do so in a program that has grown. -/
theorem Creates.grow {p q : Program} (h : Creates p x ty out) (hpq : p.Grows q) :
    Creates q x ty out := by
  obtain ⟨map, location, location', hmap, hout⟩ := h
  exact ⟨map, location, location', by rw [hpq.typeField]; exact hpq.globals _ _ hmap, hout⟩

/-- The store after the creation of an object. -/
theorem Creates.run (h : Creates w.program x ty out) (hw : w.Proper) (hx : x.role ≠ .global)
    (M : Meaning U) (σ : Store U) : M.run w.program out σ =
      ⟨Function.update σ.globals w.program.typeField.mapName
          (M.update (σ.globals w.program.typeField.mapName) [M.alloc ty] (M.datum (.type ty))),
        Function.update σ.locals x.id (M.alloc ty)⟩ := by
  obtain ⟨map, location, location', hmap, rfl⟩ := h
  have hstored : M.exec w.program σ (.assign (.var x) (.alloc ty)) =
      { σ with locals := Function.update σ.locals x.id (M.alloc ty) } :=
    M.run_assign_local hw hx (.alloc ty) location σ
  have hvalue : M.values w.program { σ with locals := Function.update σ.locals x.id (M.alloc ty) }
      [.var x] = [M.alloc ty] := by
    change [Store.get w.program _ x] = _
    rw [Store.get_local hw.named hx]
    exact congrArg (fun u => [u]) (Function.update_self ..)
  change M.exec w.program (M.exec w.program σ (.assign (.var x) (.alloc ty)))
    (.assign (.cell map [.var x]) (.tag ty)) = _
  rw [hstored]
  change Store.set w.program _ map
    (M.update (Store.get w.program _ map) (M.values w.program _ [.var x]) _) = _
  rw [hvalue, Store.set_kept hw.named hmap, Store.get_kept hw.named hmap]
  rfl

end Creation

/-- A new array that is assigned to a local is lowered in three parts: it is created, its size is
evaluated, and its length is read and compared. -/
structure NewArray (s t : LoweringState) (index : Nat) (element : Ty) (size : Value) where
  /-- The state between the creation and the evaluation. -/
  created : LoweringState
  /-- The state between the evaluation and the comparison. -/
  evaluated : LoweringState
  /-- The local. -/
  x : Var
  /-- The temporary for the length. -/
  length : Var
  /-- The heap map of the lengths. -/
  lengths : Var
  /-- The size. -/
  requested : Expr
  read : Location
  comparison : Location
  slot : s.draft.locals[index]? = some x
  creation : Emits s (s.appended created) none created
  creates : Creates created.program x (.array element) (s.appended created)
  operand : operand size created = .ok requested evaluated
  evaluation : Emits created (created.appended evaluated) none evaluated
  /-- The evaluation of the size does not end the path. -/
  open_end : size.pathEnd (Idiom.table t.program.config) = none
  compares : ∃ fin, Emits evaluated [⟨read, .assign (.var length) (.cell lengths [.var x])⟩,
    ⟨comparison, .assume (.binary .eq (.var length) requested)⟩] fin t
  lookup : t.program.globals.lookup (t.program.arrayClass element).1.lengthField.mapName = some lengths
  temp : length ∈ t.draft.temps
  temporary : length.role ≠ .global
  fresh : evaluated.program.supply.next ≤ length.id

/-- Every assignment of a new array to a local that succeeds is lowered in these parts. -/
theorem newArray_of_assign {index : Nat} {element : Ty} {size : Value}
    (h : assign (.slot index) (.newArray element size) s = .ok () t) :
    Nonempty (NewArray s t index element size) := by
  obtain ⟨x, u, v, requested, hindex, hcreate, hsize, hcompare⟩ := assign_newArray_ok h
  obtain ⟨created, _, hsu, hcreates⟩ := (yields_create x (.array element)).ok () u hcreate
  have hends : Ends u.program.idioms (operand size) (size.pathEnd u.program.idioms) := operand_ends size
  obtain ⟨evaluated, huv, -⟩ := hends.ok rfl hsize
  obtain ⟨_, fin, hvt, hopen, length, lengths, read, comparison, rfl, hlookup, htemp, hrole, hfresh⟩ :=
    (yields_compareLength x element requested).ok () t hcompare
  -- a block is open when the length is read
  obtain ⟨block, hblock⟩ := Option.isSome_iff_exists.mp hopen
  obtain ⟨hend, hopen'⟩ := huv.still_open hblock
  obtain ⟨rfl, -⟩ := hsu.still_open hopen'
  have hidioms : Idiom.table t.program.config = u.program.idioms := by
    rw [Program.idioms, (huv.toContinues.trans hvt.toContinues).program.config]
  rw [hend] at huv
  exact ⟨{
    created := u, evaluated := v, x, length, lengths, requested, read, comparison
    slot := hindex
    creation := hsu.appended.symm ▸ hsu
    creates := hsu.appended.symm ▸ hcreates
    operand := hsize
    evaluation := huv.appended.symm ▸ huv
    open_end := hidioms ▸ hend
    compares := ⟨fin, hvt⟩
    lookup := hlookup
    temp := htemp
    temporary := by simp [hrole]
    fresh := hfresh }⟩

namespace NewArray

variable {index : Nat} {element : Ty} {size : Value} (n : NewArray s t index element size)

/-- The statement that reads the length. -/
def reading : Stmt := ⟨n.read, .assign (.var n.length) (.cell n.lengths [.var n.x])⟩

/-- The statements before the comparison. -/
def stmts : List Stmt := s.appended n.created ++ n.created.appended n.evaluated ++ [n.reading]

/-- The comparison is the last statement. -/
theorem appended : s.appended t =
    n.stmts ++ [⟨n.comparison, .assume (.binary .eq (.var n.length) n.requested)⟩] := by
  obtain ⟨fin, hcompares⟩ := n.compares
  rw [((n.creation.trans n.evaluation).trans hcompares).appended]
  simp [stmts, reading]

/-- The state in the end goes on from the one after the size was evaluated. -/
theorem continues_end : Continues n.evaluated t :=
  let ⟨_, hcompares⟩ := n.compares
  hcompares.toContinues

include n in
/-- The state in the end goes on from the one before the assignment. -/
theorem continues : Continues s t :=
  n.creation.toContinues.trans (n.evaluation.toContinues.trans n.continues_end)

/-- The local is still there when the length is compared. -/
theorem slot_end : t.draft.locals[index]? = some n.x := by
  rw [n.continues.locals, n.slot]

/-- The run of the statements before the comparison: the array is created, the size is evaluated, and the
length is read. -/
theorem run_stmts (M : Meaning U) (σ : Store U) : M.run t.program n.stmts σ =
    M.run t.program [n.reading] (M.run t.program (n.created.appended n.evaluated)
      (M.run t.program (s.appended n.created) σ)) := by
  rw [stmts, M.run_append, M.run_append]

section Proper

variable (hs : s.Proper)

include hs

include n in
/-- The state in the end is in order. -/
theorem proper : t.Proper := n.continues.proper hs

/-- The variable that is assigned to is no global. -/
theorem role : n.x.role ≠ .global := by
  simp [((n.proper hs).locals n.x (Array.mem_of_getElem? n.slot_end)).1]

/-- The store after the creation. -/
theorem run_creation (M : Meaning U) (σ : Store U) : M.run t.program (s.appended n.created) σ =
    ⟨Function.update σ.globals t.program.typeField.mapName
        (M.update (σ.globals t.program.typeField.mapName) [M.alloc (.array element)]
          (M.datum (.type (.array element)))),
      Function.update σ.locals n.x.id (M.alloc (.array element))⟩ :=
  (n.creates.grow (n.evaluation.toContinues.trans n.continues_end).program).run (n.proper hs)
    (n.role hs) M σ

/-- The statements of the size compute it, from every store. -/
theorem leads (M : Meaning U) : Steady n.evaluated.program.supply.next (M.valueIn n.requested) ∧
    Leads M (fun w σ => M.evaluate t.program.config (w.scope σ) size) (M.valueIn n.requested) []
      n.created (n.created.appended n.evaluated) n.evaluated := by
  have hconfig : n.created.program.config = t.program.config :=
    (n.evaluation.toContinues.trans n.continues_end).program.config.symm
  obtain ⟨out, fin, hemits, hsteady, hleads⟩ :=
    (operand_denotes size n.open_end n.created hconfig (n.creation.toContinues.proper hs)).ok
      n.requested n.evaluated n.operand
  rw [hemits.appended]
  exact ⟨hsteady, hleads⟩

include n in
/-- In every store the size has a value. -/
theorem evaluate_isSome (M : Meaning U) (σ : Store U) :
    ∃ u globals, M.evaluate t.program.config (t.scope σ) size σ.globals = some (u, globals) :=
  ⟨_, _, ((n.leads hs M).2 t n.continues_end (n.proper hs) σ).1⟩

/-- The local keeps the new array while the size is evaluated. -/
theorem stored (M : Meaning U) (σ : Store U) :
    (M.run t.program (n.created.appended n.evaluated) (M.run t.program (s.appended n.created) σ)).locals
      n.x.id = M.alloc (.array element) := by
  have hchanges := ((n.leads hs M).2 t n.continues_end (n.proper hs)
    (M.run t.program (s.appended n.created) σ)).2
  have hcreated : n.created.created n.evaluated ⊆ t.draft.temps.toList := by
    rw [n.continues_end.temps_eq, n.evaluation.toContinues.temps_eq]
    grind
  have hkept : n.x.id ∉ (n.created.created n.evaluated).map Var.id := fun hmem =>
    (n.proper hs).not_temp (.inl (.inr (.inr (Array.mem_of_getElem? n.slot_end))))
      (List.map_subset _ hcreated hmem)
  rw [hchanges.locals_eq hkept, n.run_creation hs M]
  exact Function.update_self ..

/-- When they are compared, the temporary holds the length of the new array. -/
theorem length_value (M : Meaning U) (σ : Store U) :
    M.value t.program (M.run t.program n.stmts σ) (.var n.length) =
      M.select ((M.run t.program n.stmts σ).globals ((t.scope σ).lengthField element).mapName)
        [M.alloc (.array element)] := by
  have ht := n.proper hs
  have hstored := n.stored hs M σ
  rw [n.run_stmts]
  generalize M.run t.program (n.created.appended n.evaluated) _ = σ₂ at hstored ⊢
  rw [reading, M.run_assign_local ht n.temporary]
  change Store.get t.program _ n.length = _
  rw [Store.get_local ht.named n.temporary]
  dsimp only
  rw [Function.update_self]
  change M.select (σ₂.get t.program n.lengths) [σ₂.get t.program n.x] = _
  rw [Store.get_kept ht.named n.lookup, Store.get_local ht.named (n.role hs), hstored]
  rfl

/-- When they are compared, the size has the value that it has after the creation. -/
theorem requested_value (M : Meaning U) (σ : Store U) :
    M.evaluate t.program.config (t.scope (M.run t.program (s.appended n.created) σ)) size
        (M.run t.program (s.appended n.created) σ).globals =
      some (M.value t.program (M.run t.program n.stmts σ) n.requested,
        (M.run t.program n.stmts σ).globals) := by
  have ht := n.proper hs
  obtain ⟨hsteady, hleads⟩ := n.leads hs M
  have heval := (hleads t n.continues_end ht (M.run t.program (s.appended n.created) σ)).1
  rw [n.run_stmts]
  generalize M.run t.program (n.created.appended n.evaluated) _ = σ₂ at heval ⊢
  have hrequested : M.valueIn n.requested t (M.run t.program [n.reading] σ₂) =
      M.valueIn n.requested t σ₂ := hsteady.assign_temp ht n.temp n.temporary n.fresh _ _ σ₂
  have hglobals : (M.run t.program [n.reading] σ₂).globals = σ₂.globals := by
    rw [reading, M.run_assign_local ht n.temporary]
  rw [hglobals]
  exact heval.trans (congrArg (fun u => some (u, σ₂.globals)) hrequested.symm)

/-- The creation, and then the evaluation of the size. -/
theorem create_evaluate (M : Meaning U) (σ : Store U) :
    (M.create index (.array element) (t.scope σ) >>= fun scope =>
        M.evaluate t.program.config scope size) σ.globals =
      some (M.value t.program (M.run t.program n.stmts σ) n.requested,
        (M.run t.program n.stmts σ).globals) := by
  have hscope : t.scope (M.run t.program (s.appended n.created) σ) =
      { t.scope σ with slots := (t.scope σ).slots.set index (M.alloc (.array element)) } := by
    rw [n.run_creation hs M, (n.proper hs).scope_set n.slot_end (List.nil_subset _)
      (Store.ChangesOnly.of_local σ _ n.x _)]
    dsimp only
    rw [Function.update_self]
  have hcreate : M.create index (.array element) (t.scope σ) σ.globals =
      some (t.scope (M.run t.program (s.appended n.created) σ),
        (M.run t.program (s.appended n.created) σ).globals) := by
    rw [hscope, n.run_creation hs M]
    rfl
  rw [Evaluation.bind_some hcreate]
  exact n.requested_value hs M σ

/-- The creation leaves no mark of what it changes. -/
theorem run_creation_marked (source : String) :
    (Meaning.marks source).run t.program (s.appended n.created) (t.marked index) =
      ⟨fun _ => false, fun _ => false⟩ := by
  rw [n.run_creation hs]
  congr 1
  · funext name
    by_cases hname : name = t.program.typeField.mapName
    · subst hname
      rw [Function.update_self]
      rfl
    · rw [Function.update_of_ne hname]
      simp [LoweringState.marked, hname]
  · funext id
    by_cases hid : id = n.x.id
    · subst hid
      rw [Function.update_self]
      rfl
    · rw [Function.update_of_ne hid]
      simp [LoweringState.marked, n.slot_end, Ne.symm hid]

/-- The creation changes only what is marked. -/
theorem run_creation_unmarked (M : Meaning U) (σ : Store U) :
    (∀ id, (t.marked index).locals id = false →
      σ.locals id = (M.run t.program (s.appended n.created) σ).locals id) ∧
    ∀ name, (t.marked index).globals name = false →
      σ.globals name = (M.run t.program (s.appended n.created) σ).globals name := by
  rw [n.run_creation hs M]
  refine ⟨fun id hid => (Function.update_of_ne ?_ _ _).symm,
    fun name hname => (Function.update_of_ne ?_ _ _).symm⟩
  · rintro rfl
    simp [LoweringState.marked, n.slot_end] at hid
  · rintro rfl
    simp [LoweringState.marked] at hname

/-- A size that notices the creation is compared with another value than it had before, for some meaning
and some store; any other has the same value before and after. -/
theorem same_value_iff :
    (∀ (U : Type) (M : Meaning U) (σ : Store U),
      (M.evaluate t.program.config (t.scope σ) size σ.globals).map Prod.fst =
        some (M.value t.program (M.run t.program n.stmts σ) n.requested)) ↔
      size.noticesCreation t index = false := by
  obtain ⟨mark, globals, hmark⟩ :=
    n.evaluate_isSome hs (Meaning.marks t.program.typeField.mapName) (t.marked index)
  rw [Value.noticesCreation, hmark]
  change _ ↔ mark = false
  constructor
  · intro hsame
    -- by marks, the value before is the mark, and the value after has none
    have hafter := n.requested_value hs (Meaning.marks t.program.typeField.mapName) (t.marked index)
    rw [n.run_creation_marked hs] at hafter
    have hbefore := hsame Bool (Meaning.marks t.program.typeField.mapName) (t.marked index)
    rw [hmark, Meaning.evaluate_clean hafter] at hbefore
    exact Option.some.inj hbefore
  · rintro rfl U M σ
    obtain ⟨u, globals', hbefore⟩ := n.evaluate_isSome hs M σ
    have hsource : (t.marked index).globals t.program.typeField.mapName = true := by
      simp [LoweringState.marked]
    obtain ⟨hlocals, hglobals⟩ := n.run_creation_unmarked hs M σ
    rw [hbefore]
    exact congrArg some (Meaning.evaluate_unmarked hsource hlocals hglobals hmark hbefore
      (n.requested_value hs M σ))

end Proper

end NewArray

end Lower

/-- The length of a new array that is assigned to a local, at every point of the lowering of a body: the
last statement assumes it to be the value that the size has after the array was created in the local.
This is the value of the size before the assignment, for every meaning and in every store, if and only if
the size does not notice the creation. -/
theorem assign_newArray_size {p : Program} (hp : p.Named) {body : Body} {s t : LoweringState}
    (hs : Continues (Session.startOf body p) s) {index : Nat} {element : Ty} {size : Value}
    (h : Lower.assign (.slot index) (.newArray element size) s = .ok () t) :
    ∃ stmts location length requested,
      s.appended t = stmts ++ [⟨location, .assume (.binary .eq (.var length) requested)⟩] ∧
      (∀ (U : Type) (M : Meaning U) (σ : Store U), let σ' := M.run t.program stmts σ
        M.value t.program σ' (.var length) =
            M.select (σ'.globals ((t.scope σ).lengthField element).mapName) [M.alloc (.array element)] ∧
          (M.create index (.array element) (t.scope σ) >>= fun scope =>
            M.evaluate t.program.config scope size) σ.globals =
              some (M.value t.program σ' requested, σ'.globals)) ∧
      ((∀ (U : Type) (M : Meaning U) (σ : Store U),
        (M.evaluate t.program.config (t.scope σ) size σ.globals).map Prod.fst =
          some (M.value t.program (M.run t.program stmts σ) requested)) ↔
        size.noticesCreation t index = false) := by
  have hproper : s.Proper := hs.proper (Session.proper_startOf hp body)
  obtain ⟨n⟩ := Lower.newArray_of_assign h
  exact ⟨n.stmts, n.comparison, n.length, n.requested, n.appended, fun U M σ =>
    ⟨n.length_value hproper M σ, n.create_evaluate hproper M σ⟩, n.same_value_iff hproper⟩

/-- A body with a local for an array. -/
def resizeExample : Body where
  method := ⟨"Arrays", "resize", [], .prim .void⟩
  isStatic := true
  isSynchronized := false
  locals := #[⟨"x", .array (.prim .int)⟩]
  code := #[⟨.retVoid, .unknown⟩]

/-- The lowering of the body in its first block. -/
def resizeEntered : LoweringState :=
  { Session.startOf resizeExample (.new .standard) with openBlock := some Flow.entry }

/-- A new array of the length of the old one: the length that is assumed is the one of the new array
itself, and not the one that the old array had. -/
theorem assign_newArray_size_resize : ∃ t,
    Lower.assign (.slot 0) (.newArray (.prim .int) (.length (.slot 0))) resizeEntered = .ok () t ∧
      ∃ stmts location length requested, stmts.length = 4 ∧
        resizeEntered.appended t = stmts ++ [⟨location, .assume (.binary .eq (.var length) requested)⟩] ∧
        ¬ ∀ (U : Type) (M : Meaning U) (σ : Store U),
          (M.evaluate t.program.config (t.scope σ) (.length (.slot 0)) σ.globals).map Prod.fst =
            some (M.value t.program (M.run t.program stmts σ) requested) := by
  have hs : Continues (Session.startOf resizeExample (.new .standard)) resizeEntered :=
    .of_graph _ _ _ _ _ _
  obtain ⟨_, hrun⟩ := exists_ok
    (r := Lower.assign (.slot 0) (.newArray (.prim .int) (.length (.slot 0))) resizeEntered)
    (by decide +kernel)
  obtain ⟨stmts, location, length, requested, happended, -, hsame⟩ :=
    assign_newArray_size (Program.named_new _) hs hrun
  refine ⟨_, hrun, stmts, location, length, requested, ?_, happended, fun h => ?_⟩
  · have hlength := congrArg List.length happended
    rw [List.length_append] at hlength
    exact Nat.succ.inj (hlength.symm.trans (by decide +kernel))
  · exact absurd (hsame.mp h) (by decide +kernel)

end GuardedFlow
