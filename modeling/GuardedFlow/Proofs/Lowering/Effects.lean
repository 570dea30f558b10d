import GuardedFlow.Proofs.Meaning.Operands

/-!
# The effects of operands

Reading a field or an array element is an effect, and so is a call that no idiom matches.
`Value.occurrences` lists the effects that an operand asks for, in the order of evaluation. Lowering does
not evaluate every part of an operand: the sizes of an array and some operands of matched calls are
dropped, and their effects with them. `Enacts` relates effects to the statements that perform them, one
for each; all that other statements touch of what methods share are the type tags and lengths that the
heap model adds.
-/

namespace GuardedFlow

/-- A place in the heap that an operand refers to. -/
inductive Place where
  | field (field : FieldSig)
  | staticField (field : FieldSig)
  /-- An element of the array that an operand stands for. -/
  | element (array : Value)

/-- The name of the global that accesses to a place go through. -/
def Place.global? (body : Body) : Place → Option String
  | field f => some f.mapName
  | staticField f => some f.qualifiedName
  | element array => (body.elementType? array).map Ty.mapName

/-- An effect that an instruction asks for. -/
inductive Effect where
  | read (place : Place)
  | write (place : Place)
  | call (kind : CallKind) (method : MethodSig)

/-- An effect that an operand asks for. -/
structure Occurrence where
  effect : Effect
  /-- Whether it stands in an operand that lowering drops. -/
  lost : Bool

namespace Occurrence

/-- The occurrence of an effect in an operand that is evaluated. -/
def kept (effect : Effect) : Occurrence := ⟨effect, false⟩

/-- The occurrences in an operand that is dropped. -/
def lose (occurrences : List Occurrence) : List Occurrence :=
  occurrences.map fun occurrence => { occurrence with lost := true }

/-- The effects that are not dropped. -/
def performed (occurrences : List Occurrence) : List Effect :=
  (occurrences.filter (!·.lost)).map effect

/-- Nothing is performed where nothing occurs. -/
@[simp] theorem performed_nil : performed [] = [] := rfl

/-- What is performed by occurrences one after another. -/
@[simp] theorem performed_append (first second : List Occurrence) :
    performed (first ++ second) = performed first ++ performed second := by
  simp [performed]

/-- What is lost is not performed. -/
@[simp] theorem performed_lose (occurrences : List Occurrence) : performed (lose occurrences) = [] := by
  simp [performed, lose, List.filter_map, Function.comp_def]

end Occurrence

open Occurrence

/-- The effects that a matched call asks for, when those of its operands are known. The operands of a
call that ends the path are not evaluated, and count for nothing. -/
def IdiomKind.occurrences (base args : List Occurrence) (hasResult : Bool) :
    IdiomKind → List Occurrence
  | assertion | precondition => args ++ lose base
  | stringLength => if hasResult then base ++ lose args else lose base ++ lose args
  | exit | testFailure => []
  | getClass => base ++ lose args
  | isAssignableFrom | cast | isInstance => base ++ args

/-- The effects that a call asks for, when those of its operands are known. -/
def Call.occurrences (idioms : List Idiom) (call : Call (List Occurrence)) (hasResult : Bool) :
    List Occurrence :=
  let args := call.args.flatten
  let base := call.base.getD []
  if call.kind = .dynamic then args ++ (base ++ [kept (.call call.kind call.method)])
  else
    match Idiom.lookup idioms ⟨call.method, hasResult⟩ with
    | some kind => kind.occurrences base args hasResult
    | none =>
      args ++ ((if call.kind.hasReceiver then base else lose base) ++
        [kept (.call call.kind call.method)])

namespace Value

mutual

/-- The effects that an operand asks for. -/
def occurrences (idioms : List Idiom) : Value → List Occurrence
  | slot _ | const _ | new _ | parameter .. | receiver _ | caughtException _ => []
  | unary _ v | cast _ v | instanceOf _ v | length v => v.occurrences idioms
  | binary _ v w => v.occurrences idioms ++ w.occurrences idioms
  | newArray _ size => lose (size.occurrences idioms)
  | newMultiArray _ sizes => lose (occurrencesAll idioms sizes).flatten
  | field v f => v.occurrences idioms ++ [kept (.read (.field f))]
  | staticField f => [kept (.read (.staticField f))]
  | element v w => v.occurrences idioms ++ (w.occurrences idioms ++ [kept (.read (.element v))])
  | call kind method base args =>
    Call.occurrences idioms ⟨kind, method, occurrences? idioms base, occurrencesAll idioms args⟩ true

/-- The effects that the operands of a list ask for. -/
def occurrencesAll (idioms : List Idiom) : List Value → List (List Occurrence)
  | [] => []
  | v :: rest => v.occurrences idioms :: occurrencesAll idioms rest

/-- The effects that an operand asks for that may be absent. -/
def occurrences? (idioms : List Idiom) : Option Value → Option (List Occurrence)
  | none => none
  | some v => some (v.occurrences idioms)

end

end Value

/-! ### Statements with effects -/

/-- Whether an expression touches no global. -/
def Expr.Private (e : Expr) : Prop := ∀ v ∈ e.occurrences, v.role ≠ .global

namespace Expr

/-- A variable that is no global is private. -/
theorem private_var {v : Var} (h : v.role ≠ .global) : (var v).Private := by
  intro w hw
  rw [List.mem_singleton.mp hw]
  exact h

/-- Literals are private. -/
theorem private_lit (value : Literal) : (lit value).Private := fun _ h => by cases h

/-- Fresh references are private. -/
theorem private_alloc (ty : Ty) : (alloc ty).Private := fun _ h => by cases h

/-- Operations on private operands are private. -/
theorem private_binary {op : BinaryOp} {left right : Expr} (hleft : left.Private)
    (hright : right.Private) : (binary op left right).Private := by
  intro v hv
  rcases List.mem_append.mp hv with hv | hv
  · exact hleft v hv
  · exact hright v hv

end Expr

/-- The fields that the heap model adds to objects. -/
inductive Program.Hidden (p : Program) : FieldSig → Prop where
  | tag : p.Hidden p.typeField
  | stringLength : p.Hidden ⟨p.config.stringClass, p.config.lengthFieldName, .int⟩
  | arrayLength (element : Ty) : p.Hidden (p.arrayClass element).1.lengthField

/-- The global is the map of a field that the heap model adds. -/
def Program.KeepsHidden (p : Program) (v : Var) : Prop :=
  ∃ field, p.Hidden field ∧ p.globals.lookup field.mapName = some v

/-- What a call statement calls for a call of a method. -/
inductive Program.Calls (p : Program) (kind : CallKind) (method : MethodSig) : Callee → Prop where
  | resolved {id : Nat} (hkind : kind ≠ .dynamic) (hid : p.methods.find? method.text = some id) :
      p.Calls kind method (.method id method.text)
  | indirect (hkind : kind = .dynamic) : p.Calls kind method (.unresolved method.text)

/-- The expression stands for a place in the heap, and the keys that it is found at touch no global. -/
inductive Place.Stored (p : Program) (body : Body) : Place → Expr → Prop where
  | field {f : FieldSig} {map : Var} {base : Expr} (hmap : p.globals.lookup f.mapName = some map)
      (hbase : base.Private) : Stored p body (.field f) (.cell map [base])
  | staticField {f : FieldSig} {v : Var} (hv : p.globals.lookup f.qualifiedName = some v) :
      Stored p body (.staticField f) (.var v)
  | element {array : Value} {element : Ty} {map : Var} {base index : Expr}
      (helement : body.elementType? array = some element)
      (hmap : p.globals.lookup element.mapName = some map) (hbase : base.Private)
      (hindex : index.Private) : Stored p body (.element array) (.cell map [base, index])

/-- A statement performs an effect, and it touches nothing else that methods share. -/
inductive Effect.Performed (p : Program) (body : Body) : Effect → StmtKind → Prop where
  | read {place : Place} {e : Expr} {dest : Var} (hplace : place.Stored p body e)
      (hdest : dest.role ≠ .global) : Performed p body (.read place) (.assign (.var dest) e)
  | write {place : Place} {e value : Expr} (hplace : place.Stored p body e) (hvalue : value.Private) :
      Performed p body (.write place) (.assign e value)
  | call {kind : CallKind} {method : MethodSig} {callee : Callee} {args : List Expr} {dest : Option Var}
      (hcallee : p.Calls kind method callee) (hargs : ∀ e ∈ args, e.Private)
      (hdest : ∀ v ∈ dest, v.role ≠ .global) :
      Performed p body (.call kind method) (.call callee args (dest.map .var))

/-- The variables that a statement reads or writes. -/
def StmtKind.mentions (kind : StmtKind) : List Var :=
  kind.occurrences ++ (kind.target?.map Expr.occurrences).getD []

/-- A statement is no call, and all that it touches of what methods share are fields that the heap model
adds. -/
def StmtKind.Internal (p : Program) (kind : StmtKind) : Prop :=
  (∀ callee args result, kind ≠ .call callee args result) ∧
    ∀ v ∈ kind.mentions, v.role = .global → p.KeepsHidden v

/-- The statements perform the effects, one statement for each and in this order; all others are
internal. -/
inductive Enacts (p : Program) (body : Body) : List Effect → List Stmt → Prop where
  | nil : Enacts p body [] []
  | perform {effect : Effect} {stmt : Stmt} {effects : List Effect} {out : List Stmt}
      (hstmt : effect.Performed p body stmt.kind) (hrest : Enacts p body effects out) :
      Enacts p body (effect :: effects) (stmt :: out)
  | pass {stmt : Stmt} {effects : List Effect} {out : List Stmt} (hstmt : stmt.kind.Internal p)
      (hrest : Enacts p body effects out) : Enacts p body effects (stmt :: out)

section Growth

variable {p q : Program} {body : Body}

/-- A field that the heap model adds stays one. -/
theorem Program.Grows.hidden (hpq : p.Grows q) {field : FieldSig} (h : p.Hidden field) :
    q.Hidden field := by
  cases h with
  | tag =>
    rw [← hpq.typeField]
    exact .tag
  | stringLength =>
    rw [← hpq.config]
    exact .stringLength
  | arrayLength element =>
    rw [← hpq.arrays]
    exact .arrayLength element

/-- A statement that lowering adds stays one in a program that grows. -/
theorem StmtKind.Internal.mono {kind : StmtKind} (h : kind.Internal p) (hpq : p.Grows q) :
    kind.Internal q := by
  refine ⟨h.1, fun v hv hrole => ?_⟩
  obtain ⟨field, hfield, hlookup⟩ := h.2 v hv hrole
  exact ⟨field, hpq.hidden hfield, hpq.globals _ _ hlookup⟩

/-- A global that stores a place goes on storing it. -/
theorem Place.Stored.mono {place : Place} {e : Expr} (h : place.Stored p body e) (hpq : p.Grows q) :
    place.Stored q body e := by
  cases h with
  | field hmap hbase => exact .field (hpq.globals _ _ hmap) hbase
  | staticField hv => exact .staticField (hpq.globals _ _ hv)
  | element helement hmap hbase hindex => exact .element helement (hpq.globals _ _ hmap) hbase hindex

/-- An effect that a statement performs stays performed in a program that grows. -/
theorem Effect.Performed.mono {effect : Effect} {kind : StmtKind} (h : effect.Performed p body kind)
    (hpq : p.Grows q) : effect.Performed q body kind := by
  cases h with
  | read hplace hdest => exact .read (hplace.mono hpq) hdest
  | write hplace hvalue => exact .write (hplace.mono hpq) hvalue
  | call hcallee hargs hdest =>
    refine .call ?_ hargs hdest
    cases hcallee with
    | resolved hkind hid => exact .resolved hkind (hpq.keys _ _ hid)
    | indirect hkind => exact .indirect hkind

/-- A program that grows keeps what statements do. -/
theorem Enacts.mono {effects : List Effect} {out : List Stmt} (h : Enacts p body effects out)
    (hpq : p.Grows q) : Enacts q body effects out := by
  induction h with
  | nil => exact .nil
  | perform hstmt _ ih => exact .perform (hstmt.mono hpq) ih
  | pass hstmt _ ih => exact .pass (hstmt.mono hpq) ih

end Growth

namespace StmtKind

variable {p : Program} {dest map : Var} {value : Expr} {keys : List Expr}

/-- Setting a variable to a private value has no effect. -/
theorem internal_assign (hdest : dest.role ≠ .global) (hvalue : value.Private) :
    (assign (.var dest) value).Internal p := by
  refine ⟨fun _ _ _ h => (by cases h), fun v hv hrole => ?_⟩
  simp only [mentions, occurrences, addressOccurrences, target?, Option.map_some, Option.getD_some,
    Expr.occurrences, List.append_nil, List.mem_append, List.mem_singleton] at hv
  rcases hv with hv | rfl
  · exact absurd hrole (hvalue v hv)
  · exact absurd hrole hdest

/-- A read of a field that the heap model adds. -/
theorem internal_read {base : Expr} (hdest : dest.role ≠ .global) (hmap : p.KeepsHidden map)
    (hbase : base.Private) : (assign (.var dest) (.cell map [base])).Internal p := by
  refine ⟨fun _ _ _ h => (by cases h), fun v hv hrole => ?_⟩
  simp only [mentions, occurrences, addressOccurrences, target?, Option.map_some, Option.getD_some,
    Expr.occurrences, Expr.occurrencesAll, List.append_nil, List.mem_append, List.mem_cons,
    List.not_mem_nil, or_false] at hv
  rcases hv with (rfl | hv) | rfl
  · exact hmap
  · exact absurd hrole (hbase v hv)
  · exact absurd hrole hdest

/-- A write of a field that the heap model adds. -/
theorem internal_write {base : Expr} (hmap : p.KeepsHidden map) (hbase : base.Private)
    (hvalue : value.Private) : (assign (.cell map [base]) value).Internal p := by
  refine ⟨fun _ _ _ h => (by cases h), fun v hv hrole => ?_⟩
  simp only [mentions, occurrences, addressOccurrences, target?, Option.map_some, Option.getD_some,
    Expr.occurrences, Expr.occurrencesAll, List.append_nil, List.mem_append, List.mem_cons] at hv
  rcases hv with (hv | rfl | hv) | rfl | hv
  · exact absurd hrole (hvalue v hv)
  · exact hmap
  · exact absurd hrole (hbase v hv)
  · exact hmap
  · exact absurd hrole (hbase v hv)

/-- Asserting a private condition has no effect. -/
theorem internal_assert {condition : Expr} (h : condition.Private) : (assert condition).Internal p := by
  refine ⟨fun _ _ _ h => (by cases h), fun v hv hrole => absurd hrole (h v ?_)⟩
  simpa [mentions, occurrences, target?] using hv

/-- Assuming a private condition has no effect. -/
theorem internal_assume {condition : Expr} (h : condition.Private) : (assume condition).Internal p := by
  refine ⟨fun _ _ _ h => (by cases h), fun v hv hrole => absurd hrole (h v ?_)⟩
  simpa [mentions, occurrences, target?] using hv

end StmtKind

namespace Enacts

variable {p : Program} {body : Body} {effects effects' : List Effect} {out out' : List Stmt} {stmt : Stmt}

/-- Statements one after another enact effects one after another. -/
theorem append (h : Enacts p body effects out) (h' : Enacts p body effects' out') :
    Enacts p body (effects ++ effects') (out ++ out') := by
  induction h with
  | nil => exact h'
  | perform hstmt _ ih => exact .perform hstmt ih
  | pass hstmt _ ih => exact .pass hstmt ih

/-- A single statement that performs an effect. -/
theorem performed {effect : Effect} (h : effect.Performed p body stmt.kind) :
    Enacts p body [effect] [stmt] := .perform h .nil

/-- A single statement that lowering adds. -/
theorem internal (h : stmt.kind.Internal p) : Enacts p body [] [stmt] := .pass h .nil

end Enacts

/-- The effect is one on a field that the heap model adds. Statements that perform it look like those
that lowering adds on its own. -/
def Effect.Hidden (p : Program) (body : Body) : Effect → Prop
  | read place | write place => ∃ field, p.Hidden field ∧ place.global? body = some field.mapName
  | call .. => False

section Counting

variable {p : Program} {body : Body}

/-- The expression for a place contains the global of the place. -/
theorem Place.Stored.exists_global {place : Place} {e : Expr} (h : place.Stored p body e) :
    ∃ name v, place.global? body = some name ∧ p.globals.lookup name = some v ∧ v ∈ e.occurrences := by
  cases h with
  | field hmap _ => exact ⟨_, _, rfl, hmap, List.mem_cons_self⟩
  | staticField hv => exact ⟨_, _, rfl, hv, List.mem_singleton_self _⟩
  | element helement hmap _ _ =>
    exact ⟨_, _, by rw [global?, helement, Option.map_some], hmap, List.mem_cons_self⟩

/-- A statement that performs an effect is not internal, unless the effect is one on a field that the heap
model adds. -/
theorem Effect.Performed.not_internal (hp : p.Named) {effect : Effect} {kind : StmtKind}
    (h : effect.Performed p body kind) (hvisible : ¬ effect.Hidden p body) : ¬ kind.Internal p := by
  intro ⟨hcall, hkeeps⟩
  have hhidden {place : Place} {e : Expr} (hplace : place.Stored p body e)
      (hmentions : ∀ v ∈ e.occurrences, v ∈ kind.mentions) :
      ∃ field, p.Hidden field ∧ place.global? body = some field.mapName := by
    obtain ⟨name, v, hname, hv, hmem⟩ := hplace.exists_global
    obtain ⟨field, hfield, hmap⟩ := hkeeps v (hmentions v hmem) (hp name v hv).2
    refine ⟨field, hfield, ?_⟩
    rw [hname, ← (hp name v hv).1, ← (hp field.mapName v hmap).1]
  cases h with
  | read hplace _ =>
    exact hvisible (hhidden hplace fun v hv => by simp [StmtKind.mentions, StmtKind.occurrences, hv])
  | write hplace _ =>
    exact hvisible (hhidden hplace fun v hv => by simp [StmtKind.mentions, StmtKind.target?, hv])
  | call => exact hcall _ _ _ rfl

/-- Statements tell how many effects they perform. -/
theorem Enacts.length_eq (hp : p.Named) {effects effects' : List Effect} {out : List Stmt}
    (h : Enacts p body effects out) (h' : Enacts p body effects' out)
    (hvisible : ∀ effect ∈ effects, ¬ effect.Hidden p body)
    (hvisible' : ∀ effect ∈ effects', ¬ effect.Hidden p body) : effects.length = effects'.length := by
  induction h generalizing effects' with
  | nil =>
    cases h'
    rfl
  | perform hstmt _ ih =>
    obtain ⟨hfirst, hrest⟩ := List.forall_mem_cons.mp hvisible
    cases h' with
    | perform _ h' =>
      rw [List.length_cons, List.length_cons, ih h' hrest (List.forall_mem_cons.mp hvisible').2]
    | pass hinternal _ => exact absurd hinternal (hstmt.not_internal hp hfirst)
  | pass hinternal _ ih =>
    cases h' with
    | perform hstmt _ =>
      exact absurd hinternal (hstmt.not_internal hp (List.forall_mem_cons.mp hvisible').1)
    | pass _ h' => exact ih h' hvisible hvisible'

/-- Statements that perform the effects that are not dropped perform all effects only if none is
dropped. -/
theorem Enacts.complete_iff (hp : p.Named) {occurrences : List Occurrence} {out : List Stmt}
    (h : Enacts p body (Occurrence.performed occurrences) out)
    (hvisible : ∀ occurrence ∈ occurrences, ¬ occurrence.effect.Hidden p body) :
    Enacts p body (occurrences.map effect) out ↔ ∀ occurrence ∈ occurrences, occurrence.lost = false := by
  constructor
  · intro hall
    have hlength : (Occurrence.performed occurrences).length = (occurrences.map effect).length := by
      refine h.length_eq hp hall (fun e he => ?_) fun e he => ?_
      · obtain ⟨occurrence, hmem, rfl⟩ := List.mem_map.mp he
        exact hvisible occurrence (List.mem_filter.mp hmem).1
      · obtain ⟨occurrence, hmem, rfl⟩ := List.mem_map.mp he
        exact hvisible occurrence hmem
    rw [Occurrence.performed, List.length_map, List.length_map,
      List.length_filter_eq_length_iff] at hlength
    intro occurrence hmem
    simpa using hlength occurrence hmem
  · intro hkept
    have hfilter : occurrences.filter (!·.lost) = occurrences :=
      List.filter_eq_self.mpr fun occurrence hmem => by simp [hkept occurrence hmem]
    rwa [Occurrence.performed, hfilter] at h

end Counting

end GuardedFlow
