import GuardedFlow.Proofs.Lowering.FlowOrder

/-!
# Heap normal form

A statement of a lowered body mentions one global at most, and it mentions it once: as the place that an
assignment reads from, or as the place that it writes to. The other side of the assignment, the keys of
the place, and all that other statements and guards consist of is free of maps and globals, so that its
value does not depend on the heap. A place has as many keys as the type of its map says. What is read into
a temporary has the type of the temporary; only the length of a string may go elsewhere.
`Session.flowOf_heapForm` states this for every lowering that succeeds.
-/

namespace GuardedFlow

/-! ### Places -/

/-- The expression has no access to a heap map and no global. -/
abbrev Expr.Pure (e : Expr) : Prop := e.Over fun v => v.role ≠ .global

/-- The expression is a place where the heap keeps values of a type: a slot of a heap map, or the variable
of a static field. -/
inductive Expr.Place (ty : Ty) : Expr → Prop where
  | slot {map : Var} {keys : List Expr} {keyTys : List Ty} (hmap : map.role = .global)
      (hty : map.ty = .map keyTys ty) (hlength : keys.length = keyTys.length)
      (hkeys : ∀ key ∈ keys, key.Pure) : Place ty (.cell map keys)
  | static {v : Var} (hv : v.role = .global) (hty : v.ty = ty) : Place ty (.var v)

/-- The statement reads one place of the heap, or writes to one, or leaves the heap alone. -/
inductive StmtKind.HeapForm : StmtKind → Prop where
  | load {dest : Var} {place : Expr} {ty : Ty} (hdest : dest.role ≠ .global) (hplace : place.Place ty) :
      HeapForm (.assign (.var dest) place)
  | store {place value : Expr} {ty : Ty} (hplace : place.Place ty) (hvalue : value.Pure) :
      HeapForm (.assign place value)
  | assign {dest : Var} {value : Expr} (hdest : dest.role ≠ .global) (hvalue : value.Pure) :
      HeapForm (.assign (.var dest) value)
  | assert {condition : Expr} (h : condition.Pure) : HeapForm (.assert condition)
  | assume {condition : Expr} (h : condition.Pure) : HeapForm (.assume condition)
  | call {callee : Callee} {args : List Expr} {result : Option Expr} (hargs : ∀ e ∈ args, e.Pure)
      (hresult : ∀ e ∈ result, e.Pure) : HeapForm (.call callee args result)

/-! ### Globals -/

namespace StmtKind

/-- The expressions of a statement. -/
def exprs : StmtKind → List Expr
  | assign target value => [target, value]
  | assert condition | assume condition => [condition]
  | call _ args result => args ++ result.toList

/-- The globals that a statement mentions, once for every place they stand at. -/
def globals (kind : StmtKind) : List Var := (Expr.occurrencesAll kind.exprs).filter Var.isGlobal

end StmtKind

section Globals

variable {p : Program} {R W : Var → Prop}

/-- There are no globals in expressions over variables that are none. -/
theorem Expr.Over.globals {e : Expr} (h : e.Over R) (hR : ∀ v, R v → v.role ≠ .global) :
    e.occurrences.filter Var.isGlobal = [] := by
  refine List.filter_eq_nil_iff.mpr fun v hv hglobal => ?_
  exact hR v (h.of_mem hv) (by simpa [Var.isGlobal] using hglobal)

/-- Expressions over variables that are no globals contain none. -/
theorem Expr.globals_all (es : List Expr) (h : ∀ e ∈ es, e.Over R) (hR : ∀ v, R v → v.role ≠ .global) :
    (occurrencesAll es).filter Var.isGlobal = [] := by
  refine List.filter_eq_nil_iff.mpr fun v hv => ?_
  obtain ⟨e, he, hv⟩ := mem_occurrencesAll.mp hv
  exact List.filter_eq_nil_iff.mp ((h e he).globals hR) v hv

/-- A place in a region mentions one global. -/
theorem Region.Slot.globals {region : Region} {place : Expr} (h : region.Slot p R place) (hp : p.Named)
    (hR : ∀ v, R v → v.role ≠ .global) :
    ∃ v, p.Has region v ∧ place.occurrences.filter Var.isGlobal = [v] := by
  have hglobal {v : Var} (hv : p.Has region v) : v.isGlobal = true := by
    simp [Var.isGlobal, (hp _ v hv.lookup).2]
  cases h with
  | @field f map object hmap hobject =>
    refine ⟨map, hmap, ?_⟩
    rw [Expr.occurrences, List.filter_cons_of_pos (hglobal hmap), Expr.globals_all _ (by simpa using hobject) hR]
  | @elements element map array index hmap harray hindex =>
    refine ⟨map, hmap, ?_⟩
    rw [Expr.occurrences, List.filter_cons_of_pos (hglobal hmap),
      Expr.globals_all _ (by simpa using ⟨harray, hindex⟩) hR]
  | @static f v hv =>
    exact ⟨v, hv, by rw [Expr.occurrences, List.filter_cons_of_pos (hglobal hv), List.filter_nil]⟩

/-- A place in a region keeps values of the type of the region. -/
theorem Region.Slot.place {region : Region} {place : Expr} (h : region.Slot p R place) (hp : p.Named)
    (hR : ∀ v, R v → v.role ≠ .global) : place.Place region.valueTy := by
  cases h with
  | field hmap hobject =>
    exact .slot (hp _ _ hmap.lookup).2 hmap.ty rfl (by simpa using hobject.mono hR)
  | elements hmap harray hindex =>
    exact .slot (hp _ _ hmap.lookup).2 hmap.ty rfl (by simpa using ⟨harray.mono hR, hindex.mono hR⟩)
  | static hv => exact .static (hp _ _ hv.lookup).2 hv.ty

/-- A plain statement mentions no global. -/
theorem StmtKind.Plain.globals {kind : StmtKind} (h : kind.Plain R W) (hR : ∀ v, R v → v.role ≠ .global)
    (hW : ∀ v, W v → v.role ≠ .global) : kind.globals = [] := by
  cases h with
  | @assign dest value hdest hvalue =>
    have hover : (Expr.var dest).Over fun v => v.role ≠ .global := hW dest hdest
    exact Expr.globals_all [.var dest, value] (by simpa using ⟨hover, hvalue.mono hR⟩) fun _ => id
  | @assert condition h | @assume condition h =>
    exact Expr.globals_all [condition] (by simpa using h) hR
  | @call callee args dest hargs hdest =>
    refine Expr.globals_all (R := fun v => v.role ≠ .global) _ (fun e he => ?_) fun _ => id
    rcases List.mem_append.mp he with he | he
    · exact (hargs e he).mono hR
    · obtain ⟨v, hv, rfl⟩ := Option.mem_map.mp (Option.mem_toList.mp he)
      exact hW v (hdest v hv)

/-- An access mentions the global of its region, and no other. -/
theorem Access.LoweredTo.globals {access : Access} {kind : StmtKind} (h : access.LoweredTo p R W kind)
    (hp : p.Named) (hR : ∀ v, R v → v.role ≠ .global) (hW : ∀ v, W v → v.role ≠ .global) :
    ∃ v, p.Has access.region v ∧ kind.globals = [v] := by
  have hdest {dest : Var} (hdest : W dest) : [dest].filter Var.isGlobal = [] := by
    simpa [Var.isGlobal] using hW dest hdest
  cases h with
  | @read region dest place hwrite hplace | @query region dest place hwrite hplace =>
    obtain ⟨v, hv, hglobals⟩ := hplace.globals hp hR
    refine ⟨v, hv, ?_⟩
    simp only [StmtKind.globals, StmtKind.exprs, Expr.occurrencesAll, Expr.occurrences, List.filter_append,
      hdest hwrite, hglobals, List.nil_append, List.append_nil]
  | @write region place value hplace hvalue =>
    obtain ⟨v, hv, hglobals⟩ := hplace.globals hp hR
    refine ⟨v, hv, ?_⟩
    simp only [StmtKind.globals, StmtKind.exprs, Expr.occurrencesAll, List.filter_append, hglobals,
      hvalue.globals hR, List.append_nil]

/-- What is in normal form over variables that are not global mentions the heap in one place. -/
theorem StmtKind.Conforms.heapForm {kind : StmtKind} (h : kind.Conforms p R W) (hp : p.Named)
    (hR : ∀ v, R v → v.role ≠ .global) (hW : ∀ v, W v → v.role ≠ .global) : kind.HeapForm := by
  rcases h with h | ⟨access, h⟩
  · cases h with
    | assign hdest hvalue => exact .assign (hW _ hdest) (hvalue.mono hR)
    | assert h => exact .assert (h.mono hR)
    | assume h => exact .assume (h.mono hR)
    | call hargs hdest =>
      refine .call (fun e he => (hargs e he).mono hR) fun e he => ?_
      obtain ⟨v, hv, rfl⟩ := Option.mem_map.mp he
      exact hW v (hdest v hv)
  · cases h with
    | read hdest hplace | query hdest hplace => exact .load (hW _ hdest) (hplace.place hp hR)
    | write hplace hvalue => exact .store (hplace.place hp hR) (hvalue.mono hR)

/-- Mentioned globals are counted by the form of a statement. -/
theorem StmtKind.Conforms.globals {kind : StmtKind} (h : kind.Conforms p R W) (hp : p.Named)
    (hR : ∀ v, R v → v.role ≠ .global) (hW : ∀ v, W v → v.role ≠ .global) : kind.globals.length ≤ 1 := by
  rcases h with h | ⟨access, h⟩
  · simp [h.globals hR hW]
  · obtain ⟨v, -, hglobals⟩ := h.globals hp hR hW
    simp [hglobals]

end Globals

/-! ### Accesses and statements -/

section Order

variable {t : LoweringState} {done : List Stmt} {first : Nat} {v : Var} {kind : StmtKind}

/-- A readable variable is no global. -/
theorem Draft.Readable.role_ne_global (h : t.draft.Readable done v) (ht : t.Proper) : v.role ≠ .global :=
  ht.role_ne_global h.declared

/-- A writable variable is no global. -/
theorem Draft.Writable.role_ne_global (h : t.draft.Writable first done v) (ht : t.Proper) :
    v.role ≠ .global := ht.role_ne_global h.declared

/-- A plain statement has no globals. -/
theorem LoweringState.Proper.plain_globals (ht : t.Proper)
    (h : kind.Plain (t.draft.Readable done) (t.draft.Writable first done)) : kind.globals = [] :=
  h.globals (fun _ h => h.role_ne_global ht) fun _ h => h.role_ne_global ht

/-- The statement of an access has just the global of its region. -/
theorem LoweringState.Proper.access_globals (ht : t.Proper) {access : Access}
    (h : access.LoweredTo t.program (t.draft.Readable done) (t.draft.Writable first done) kind) :
    ∃ v, t.program.Has access.region v ∧ kind.globals = [v] :=
  h.globals ht.named (fun _ h => h.role_ne_global ht) fun _ h => h.role_ne_global ht

/-- The statements that mention globals are the accesses, in order. -/
theorem Orderly.aligned {accesses : List Access} {out : List Stmt} (h : Orderly first t done accesses out)
    (ht : t.Proper) : List.Forall₂ (fun access stmt => access.LoweredTo t.program
      (· ∈ t.draft.variables) (· ∈ t.draft.variables) stmt.kind)
      accesses (out.filter fun stmt => stmt.kind.globals ≠ []) := by
  -- along the statements: a plain one does not pass the filter, and makes no access
  induction h with
  | nil => exact .nil
  | plain hstmt _ ih => rwa [List.filter_cons_of_neg (by simpa using ht.plain_globals hstmt)]
  | access hstmt _ ih =>
    obtain ⟨v, -, hglobals⟩ := ht.access_globals hstmt
    rw [List.filter_cons_of_pos (by simp [hglobals])]
    exact .cons (hstmt.mono (.refl _) (fun _ h => h.declared) fun _ h => h.declared) ih

end Order

/-- A read assigns what a place keeps. A temporary that it assigns to has the type of that. -/
def Access.Typed (access : Access) (stmt : Stmt) : Prop :=
  access.mode = .read → ∃ dest place, stmt.kind = .assign (.var dest) place ∧
    (dest.role = .temporary → place.Place dest.ty)

/-- The statement of a read assigns its place, and a temporary that it assigns to has the type of the place.
-/
theorem Access.LoweredTo.typed {p : Program} {R W : Var → Prop} {access : Access} {stmt : Stmt}
    (h : access.LoweredTo p R W stmt.kind) (hp : p.Named) (hR : ∀ v, R v → v.role ≠ .global) :
    access.Typed stmt := by
  intro hmode
  cases access with | mk mode region
  obtain rfl : mode = .read := hmode
  generalize stmt.kind = kind at h ⊢
  cases h with
  | @read _ dest place _ hplace hty =>
    exact ⟨dest, place, rfl, fun htemp => hty htemp ▸ hplace.place hp hR⟩

/-- A control-flow graph of the instructions `vs` of a body, all of whose statements are in heap normal
form. -/
structure Flow.InHeapForm (p : Program) (body : Body) (vs : List Visit) (flow : Flow) : Prop where
  stmts : ∀ entry ∈ flow.statements, entry.2.kind.HeapForm
  /-- No statement mentions two globals, or one of them twice. -/
  once : ∀ entry ∈ flow.statements, entry.2.kind.globals.length ≤ 1
  guards : ∀ link ∈ flow.graph.edges, ∀ guard ∈ link.payload, guard.Pure
  /-- All statements are those of an instruction. -/
  segments : ∀ block, flow.graph.stmtsAt block = (vs.filter (·.home = some block)).flatMap Visit.segment
  /-- The statements of an instruction that mention a global are its accesses, in order, and the reads
  among them fit the temporaries that they go to. -/
  reads : ∀ v ∈ vs, List.Forall₂ Access.Typed (v.instr.op.accesses p body)
    (v.segment.filter fun stmt => stmt.kind.globals ≠ [])

namespace Session

/-- Every lowering that succeeds gives statements in heap normal form, whatever bodies were lowered and
whatever was requested before. -/
theorem flowOf_heapForm {body : Body} {oracle : PredecessorOracle} {p q : Program} {flow : Flow}
    (hp : p.Reachable) (h : flowOf body oracle p = .ok flow q) :
    flow.InHeapForm p body (visits body oracle p) := by
  obtain ⟨t, -, hordered⟩ := flowOf_ordered hp.sound h
  have hproper := hordered.proper
  refine ⟨fun entry hentry => ?_, fun entry hentry => ?_, fun link hlink guard hguard => ?_, hordered.stmts,
    fun visit hvisit => ?_⟩
  · obtain ⟨first, done, hconforms⟩ := hordered.conforms hentry
    exact hconforms.heapForm hproper.named (fun _ h => h.role_ne_global hproper) fun _ h => h.role_ne_global hproper
  · obtain ⟨first, done, hconforms⟩ := hordered.conforms hentry
    exact hconforms.globals hproper.named (fun _ h => h.role_ne_global hproper) fun _ h => h.role_ne_global hproper
  · obtain ⟨visit, -, -, hover⟩ := hordered.guards link hlink guard hguard
    exact hover.mono fun _ h => h.role_ne_global hproper
  · have haligned := (hordered.visits visit hvisit).orderly.aligned hproper
    exact haligned.imp fun _ _ h => h.typed hproper.named fun _ h => hproper.role_ne_global h

/-- A store to an element, of a sum of a field and a static field, at an index that is a field. A new
object and the length of an array follow. -/
def accessExample : Body where
  method := ⟨"Cell", "count", [], .prim .void⟩
  isStatic := true
  isSynchronized := false
  locals := #[⟨"cell", .named "Cell"⟩, ⟨"counts", .array .int⟩, ⟨"size", .int⟩]
  code := #[⟨.assign (.element (.slot 1) (.field (.slot 0) ⟨"Cell", "index", .int⟩))
      (.binary .add (.field (.slot 0) ⟨"Cell", "value", .int⟩) (.staticField ⟨"Cell", "step", .int⟩)), .unknown⟩,
    ⟨.assign (.slot 0) (.new (.named "Cell")), .unknown⟩, ⟨.assign (.slot 2) (.length (.slot 1)), .unknown⟩,
    ⟨.retVoid, .unknown⟩]

/-- The body is lowered to four accesses of its first instruction, and one of each that follows. -/
theorem flowOf_heapForm_access : ∃ flow q,
    flowOf accessExample accessExample.predecessorOracle (.new .standard) = .ok flow q ∧
      (flow.statements.filter fun entry => entry.2.kind.globals ≠ []).length = 6 ∧
      flow.InHeapForm (.new .standard) accessExample
        (visits accessExample accessExample.predecessorOracle (.new .standard)) := by
  obtain ⟨flow, h, haccesses⟩ := exists_ok_with
    (r := flowOf accessExample accessExample.predecessorOracle (.new .standard))
    (P := fun flow => (flow.statements.filter fun entry => entry.2.kind.globals ≠ []).length = 6)
    (by decide +kernel)
  exact ⟨flow, _, h, haccesses, flowOf_heapForm (.new .standard) h⟩

end Session

end GuardedFlow
