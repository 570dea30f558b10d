import GuardedFlow.Proofs.Lowering.InstructionEffects
import GuardedFlow.Proofs.Program.Regions

/-!
# The normal form of statements

The heap accesses that an instruction asks for are listed on the side of the source, with those that
lowering adds for type tags and lengths: `Op.accesses`. On the side of the target, a statement either
touches no global at all, or it is one access: an assignment whose one side is a place in a region of the
heap and whose other side, like the keys of the place, is built from variables, constants and operators.
-/

namespace GuardedFlow

/-! ### Accesses of operands -/

/-- How a region of the heap is accessed. -/
inductive AccessMode where
  | read
  /-- Read as the length of a string, which is stored wherever the caller wants the answer. -/
  | query
  | write
  deriving DecidableEq

/-- One access to the heap. -/
structure Access where
  mode : AccessMode
  region : Region
  deriving DecidableEq

namespace Program

variable (p : Program)

/-- The region of type tags. -/
def tagRegion : Region := .field p.typeField

/-- The region of the lengths of the arrays of an element type. -/
def lengthRegion (element : Ty) : Region := .field (p.arrayClass element).1.lengthField

/-- The region of the lengths of strings. -/
def stringRegion : Region := .field ⟨p.config.stringClass, p.config.lengthFieldName, .int⟩

end Program

/-- The accesses of a matched call, when those of its operands are known. -/
def IdiomKind.accesses (p : Program) (base args : List Access) (hasResult : Bool) :
    IdiomKind → List Access
  | assertion | precondition => args
  | stringLength => if hasResult then base ++ [⟨.query, p.stringRegion⟩] else []
  | exit | testFailure => []
  | isAssignableFrom => base ++ args
  | getClass => base ++ [⟨.read, p.tagRegion⟩]
  | cast | isInstance => base ++ (args ++ [⟨.read, p.tagRegion⟩])

/-- The accesses of a call, when those of its operands are known. -/
def Call.accesses (p : Program) (call : Call (List Access)) (hasResult : Bool) : List Access :=
  let args := call.args.flatten
  let base := call.base.getD []
  if call.kind = .dynamic then args ++ base
  else
    match Idiom.lookup p.idioms ⟨call.method, hasResult⟩ with
    | some kind => kind.accesses p base args hasResult
    | none => args ++ if call.kind.hasReceiver then base else []

namespace Value

mutual

/-- The accesses that the lowering of an operand makes, in order. -/
def accesses (p : Program) (body : Body) : Value → List Access
  | slot _ | const _ | new _ | newArray .. | newMultiArray .. | parameter .. | receiver _
  | caughtException _ => []
  | unary _ v | cast _ v => v.accesses p body
  | binary _ v w => v.accesses p body ++ w.accesses p body
  | instanceOf _ v => v.accesses p body ++ [⟨.read, p.tagRegion⟩]
  | length v =>
    v.accesses p body ++ (body.elementType? v).toList.map fun entry => ⟨.read, p.lengthRegion entry⟩
  | field v f => v.accesses p body ++ [⟨.read, .field f⟩]
  | staticField f => [⟨.read, .static f⟩]
  | element v w =>
    v.accesses p body ++ (w.accesses p body ++
      (body.elementType? v).toList.map fun entry => ⟨.read, .elements entry⟩)
  | call kind method base args =>
    Call.accesses p ⟨kind, method, accesses? p body base, accessesAll p body args⟩ true

/-- The accesses that the lowerings of the operands of a list make. -/
def accessesAll (p : Program) (body : Body) : List Value → List (List Access)
  | [] => []
  | v :: rest => v.accesses p body :: accessesAll p body rest

/-- The accesses that the lowering of an operand makes that may be absent. -/
def accesses? (p : Program) (body : Body) : Option Value → Option (List Access)
  | none => none
  | some v => some (v.accesses p body)

end

/-- The accesses that a store into an operand makes. -/
def storeAccesses (p : Program) (body : Body) : Value → List Access
  | field v f => v.accesses p body ++ [⟨.write, .field f⟩]
  | staticField f => [⟨.write, .static f⟩]
  | element v w =>
    v.accesses p body ++ (w.accesses p body ++
      (body.elementType? v).toList.map fun entry => ⟨.write, .elements entry⟩)
  | _ => []

/-- The accesses that initialise a new object in a local: its type tag is written, and the length of an
array is read, after the requested one was evaluated. -/
def initAccesses (p : Program) (body : Body) : Value → List Access
  | new _ | newMultiArray .. => [⟨.write, p.tagRegion⟩]
  | newArray entry size =>
    ⟨.write, p.tagRegion⟩ :: (size.accesses p body ++ [⟨.read, p.lengthRegion entry⟩])
  | _ => []

end Value

/-- The accesses that the lowering of an operation makes, in order. -/
def Op.accesses (p : Program) (body : Body) : Op Nat → List Access
  | assign place source =>
    source.accesses p body ++
      if place.isHeapLocation then place.storeAccesses p body else source.initAccesses p body
  | identity _ v | branch v _ | ret v | monitorEnter v | monitorExit v => v.accesses p body
  | tableSwitch v .. | lookupSwitch v .. | throw v => v.accesses p body
  | invoke call =>
    Call.accesses p ⟨call.kind, call.method, Value.accesses? p body call.base,
      Value.accessesAll p body call.args⟩ false
  | goto _ | retVoid | nop | breakpoint | subroutineReturn _ => []

/-! ### Expressions without accesses -/

namespace Expr

/-- Whether an expression has no access to a heap map, and all its variables have a property. -/
def Over (R : Var → Prop) : Expr → Prop
  | var v => R v
  | lit _ | alloc _ => True
  | unary _ operand => operand.Over R
  | binary _ left right => left.Over R ∧ right.Over R
  | cell .. => False

/-- An expression over some variables is one over more of them. -/
theorem Over.mono {R S : Var → Prop} (hRS : ∀ v, R v → S v) : ∀ {e : Expr}, e.Over R → e.Over S
  | var v, h => hRS v h
  | lit _, h | alloc _, h => h
  | unary _ operand, h => Over.mono (e := operand) hRS h
  | binary _ _ _, h => ⟨Over.mono hRS h.1, Over.mono hRS h.2⟩

/-- A variable that occurs is one of those that an expression is over. -/
theorem Over.of_mem {R : Var → Prop} {v : Var} : ∀ {e : Expr}, e.Over R → v ∈ e.occurrences → R v
  | var _, h, hv => List.mem_singleton.mp hv ▸ h
  | unary _ operand, h, hv => Over.of_mem (e := operand) h hv
  | binary _ _ _, h, hv => (List.mem_append.mp hv).elim (Over.of_mem h.1) (Over.of_mem h.2)

end Expr

/-- A variable occurs in a list if it occurs in one of its expressions. -/
theorem Expr.mem_occurrencesAll {es : List Expr} {v : Var} :
    v ∈ occurrencesAll es ↔ ∃ e ∈ es, v ∈ e.occurrences := by
  induction es with
  | nil => simp [occurrencesAll]
  | cons e rest ih => simp [occurrencesAll, ih]

/-! ### Statements -/

/-- The expression is a place in a region, and its keys are built from variables with a property. -/
inductive Region.Slot (p : Program) (R : Var → Prop) : Region → Expr → Prop where
  | field {f : FieldSig} {map : Var} {object : Expr} (hmap : p.Has (.field f) map)
      (hobject : object.Over R) : Slot p R (.field f) (.cell map [object])
  | elements {element : Ty} {map : Var} {array index : Expr} (hmap : p.Has (.elements element) map)
      (harray : array.Over R) (hindex : index.Over R) :
      Slot p R (.elements element) (.cell map [array, index])
  | static {f : FieldSig} {v : Var} (hv : p.Has (.static f) v) : Slot p R (.static f) (.var v)

/-- The statement is an access. It reads variables with the property `R` and no others, apart from the
global of the region, and stores to the heap or to a variable with the property `W`. A temporary has the
type of what is read into it, unless it takes the answer of a query. -/
inductive Access.LoweredTo (p : Program) (R W : Var → Prop) : Access → StmtKind → Prop where
  | read {region : Region} {dest : Var} {place : Expr} (hdest : W dest) (hplace : region.Slot p R place)
      (hty : dest.role = .temporary → dest.ty = region.valueTy) :
      LoweredTo p R W ⟨.read, region⟩ (.assign (.var dest) place)
  | query {region : Region} {dest : Var} {place : Expr} (hdest : W dest)
      (hplace : region.Slot p R place) : LoweredTo p R W ⟨.query, region⟩ (.assign (.var dest) place)
  | write {region : Region} {place value : Expr} (hplace : region.Slot p R place)
      (hvalue : value.Over R) : LoweredTo p R W ⟨.write, region⟩ (.assign place value)

/-- The statement accesses no heap. It reads variables with the property `R` and no others, and stores
to a variable with the property `W`. -/
inductive StmtKind.Plain (R W : Var → Prop) : StmtKind → Prop where
  | assign {dest : Var} {value : Expr} (hdest : W dest) (hvalue : value.Over R) :
      Plain R W (.assign (.var dest) value)
  | assert {condition : Expr} (h : condition.Over R) : Plain R W (.assert condition)
  | assume {condition : Expr} (h : condition.Over R) : Plain R W (.assume condition)
  | call {callee : Callee} {args : List Expr} {dest : Option Var} (hargs : ∀ e ∈ args, e.Over R)
      (hdest : ∀ v ∈ dest, W v) : Plain R W (.call callee args (dest.map .var))

section Mono

variable {p q : Program} {R R' W W' : Var → Prop}

/-- A slot of a region stays one. -/
theorem Region.Slot.mono {region : Region} {place : Expr} (h : region.Slot p R place) (hpq : p.Grows q)
    (hR : ∀ v, R v → R' v) : region.Slot q R' place := by
  cases h with
  | field hmap hobject => exact .field (hpq.has hmap) (hobject.mono hR)
  | elements hmap harray hindex => exact .elements (hpq.has hmap) (harray.mono hR) (hindex.mono hR)
  | static hv => exact .static (hpq.has hv)

/-- What an access is lowered to may be so later on. -/
theorem Access.LoweredTo.mono {access : Access} {kind : StmtKind} (h : access.LoweredTo p R W kind)
    (hpq : p.Grows q) (hR : ∀ v, R v → R' v) (hW : ∀ v, W v → W' v) : access.LoweredTo q R' W' kind := by
  cases h with
  | read hdest hplace hty => exact .read (hW _ hdest) (hplace.mono hpq hR) hty
  | query hdest hplace => exact .query (hW _ hdest) (hplace.mono hpq hR)
  | write hplace hvalue => exact .write (hplace.mono hpq hR) (hvalue.mono hR)

/-- A plain statement stays plain. -/
theorem StmtKind.Plain.mono {kind : StmtKind} (h : kind.Plain R W) (hR : ∀ v, R v → R' v)
    (hW : ∀ v, W v → W' v) : kind.Plain R' W' := by
  cases h with
  | assign hdest hvalue => exact .assign (hW _ hdest) (hvalue.mono hR)
  | assert h => exact .assert (h.mono hR)
  | assume h => exact .assume (h.mono hR)
  | call hargs hdest => exact .call (fun e he => (hargs e he).mono hR) fun v hv => hW v (hdest v hv)

end Mono

/-! ### The variables of statements -/

/-- A statement in normal form. -/
def StmtKind.Conforms (p : Program) (R W : Var → Prop) (kind : StmtKind) : Prop :=
  kind.Plain R W ∨ ∃ access : Access, access.LoweredTo p R W kind

section Variables

variable {p : Program} {R W : Var → Prop} {v : Var}

/-- A place consists of the global of its region and of the keys. -/
theorem Region.Slot.of_mem {region : Region} {place : Expr} (h : region.Slot p R place)
    (hv : v ∈ place.occurrences) : R v ∨ p.Has region v := by
  cases h with
  | field hmap hobject =>
    rcases List.mem_cons.mp hv with rfl | hv
    · exact .inr hmap
    · obtain ⟨e, he, hmem⟩ := Expr.mem_occurrencesAll.mp hv
      rw [List.mem_singleton.mp he] at hmem
      exact .inl (hobject.of_mem hmem)
  | elements hmap harray hindex =>
    rcases List.mem_cons.mp hv with rfl | hv
    · exact .inr hmap
    · obtain ⟨e, he, hmem⟩ := Expr.mem_occurrencesAll.mp hv
      rcases List.mem_pair.mp he with rfl | rfl
      · exact .inl (harray.of_mem hmem)
      · exact .inl (hindex.of_mem hmem)
  | static hmap =>
    rw [List.mem_singleton.mp hv]
    exact .inr hmap

/-- The variables in an address are among those in the target. -/
theorem StmtKind.mem_of_addressOccurrences {target : Expr} (hv : v ∈ addressOccurrences target) :
    v ∈ target.occurrences := by
  cases target <;> first | exact hv | exact absurd hv List.not_mem_nil

namespace StmtKind.Conforms

variable {kind : StmtKind}

/-- A statement stores to a variable that it may set, or to a place in the heap. -/
theorem target (h : kind.Conforms p R W) {target : Expr} (ht : kind.target? = some target) :
    (∃ dest, target = .var dest ∧ W dest) ∨ ∃ region : Region, region.Slot p R target := by
  rcases h with h | ⟨access, h⟩
  · cases h with
    | assign hdest _ =>
      cases ht
      exact .inl ⟨_, rfl, hdest⟩
    | assert | assume => cases ht
    | @call callee args dest _ hdest =>
      obtain ⟨v, hv, rfl⟩ := Option.map_eq_some_iff.mp ht
      exact .inl ⟨v, rfl, hdest v hv⟩
  · cases h with
    | read hdest | query hdest =>
      cases ht
      exact .inl ⟨_, rfl, hdest⟩
    | write hplace _ =>
      cases ht
      exact .inr ⟨_, hplace⟩

/-- A statement reads variables that it may read, and globals of regions. -/
theorem reads (h : kind.Conforms p R W) (hv : v ∈ kind.occurrences) :
    R v ∨ ∃ region, p.Has region v := by
  have haddress {target : Expr} (ht : kind.target? = some target) (hv : v ∈ addressOccurrences target) :
      R v ∨ ∃ region, p.Has region v := by
    rcases h.target ht with ⟨dest, rfl, -⟩ | ⟨region, hplace⟩
    · cases hv
    · exact (hplace.of_mem (mem_of_addressOccurrences hv)).imp_right fun hv => ⟨region, hv⟩
  have hover {e : Expr} (he : e.Over R) (hv : v ∈ e.occurrences) : R v ∨ ∃ region, p.Has region v :=
    .inl (he.of_mem hv)
  rcases h with h | ⟨access, h⟩
  · cases h with
    | assign _ hvalue => exact (List.mem_append.mp hv).elim (hover hvalue) (haddress rfl)
    | assert h | assume h => exact hover h hv
    | @call callee args dest hargs _ =>
      rcases List.mem_append.mp hv with hv | hv
      · obtain ⟨e, he, hv⟩ := Expr.mem_occurrencesAll.mp hv
        exact hover (hargs e he) hv
      · cases dest with
        | none => cases hv
        | some dest => cases hv
  · cases h with
    | read _ hplace | query _ hplace =>
      rcases List.mem_append.mp hv with hv | hv
      · exact (hplace.of_mem hv).imp_right fun hv => ⟨_, hv⟩
      · cases hv
    | write _ hvalue => exact (List.mem_append.mp hv).elim (hover hvalue) (haddress rfl)

/-- A statement sets a variable that it may set, or a global of a region. -/
theorem sets {stmt : Stmt} (h : stmt.kind.Conforms p R W) (hv : v ∈ stmt.defs) :
    W v ∨ ∃ region, p.Has region v := by
  unfold Stmt.defs at hv
  cases ht : stmt.kind.target? with
  | none =>
    rw [ht] at hv
    cases hv
  | some target =>
    rw [ht] at hv
    rcases h.target ht with ⟨dest, rfl, hdest⟩ | ⟨region, hplace⟩
    · rw [List.mem_singleton.mp hv]
      exact .inl hdest
    · cases hplace with
      | field hmap | elements hmap | static hmap =>
        rw [List.mem_singleton.mp hv]
        exact .inr ⟨_, hmap⟩

/-- A statement mentions variables that it may read or set, and globals of regions. -/
theorem mentions (h : kind.Conforms p R W) (hv : v ∈ kind.mentions) :
    R v ∨ W v ∨ ∃ region, p.Has region v := by
  rcases List.mem_append.mp hv with hv | hv
  · exact (h.reads hv).imp_right .inr
  · cases ht : kind.target? with
    | none => simp [ht] at hv
    | some target =>
      rw [ht] at hv
      rcases h.target ht with ⟨dest, rfl, hdest⟩ | ⟨region, hplace⟩
      · rw [List.mem_singleton.mp hv]
        exact .inr (.inl hdest)
      · exact (hplace.of_mem hv).imp_right fun hv => .inr ⟨region, hv⟩

end StmtKind.Conforms

end Variables

end GuardedFlow
