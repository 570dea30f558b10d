import GuardedFlow.Proofs.Lowering.Emission

/-!
# What the accesses to the heap append

Each access evaluates its operands and then appends one statement, on the global that the heap model
keeps for its place. The lemmas name the global by its place in the table of the program.
-/

namespace GuardedFlow

/-- The name of the map of an instance field. -/
def FieldSig.mapName (field : FieldSig) : String := s!"$heap<{field.qualifiedName}>"

/-- The name of the map of the arrays of an element type. -/
def Ty.mapName (element : Ty) : String := s!"$array<{element}>"

namespace Lower

variable {s : LoweringState} {Q : List Stmt → Option PathEnd → Unit → LoweringState → Prop}

/-- The type of an operand, if the declarations determine it. -/
theorem yields_typeOf {value : Value} {Q : List Stmt → Option PathEnd → Ty → LoweringState → Prop}
    (h : ∀ ty, s.draft.body.typeOf? value = some ty → Q [] none ty s) : Yields (typeOf value) s Q :=
  yields_found (·.body.typeOf? value) (.unknownType value) rfl
    (fun d => by cases d.body.typeOf? value <;> rfl) h

/-- The element type of an operand whose type is an array. -/
theorem yields_elementType {array : Value}
    {Q : List Stmt → Option PathEnd → Ty → LoweringState → Prop}
    (h : ∀ element, s.draft.body.typeOf? array = some (.array element) → Q [] none element s) :
    Yields (elementType array) s Q :=
  (yields_typeOf (Q := fun out fin ty t => out = [] ∧ fin = none ∧ t = s ∧
      s.draft.body.typeOf? array = some ty) fun ty hty => ⟨rfl, rfl, rfl, hty⟩).bind
    fun _ _ ty _ _ hty => by
      obtain ⟨rfl, rfl, rfl, hty⟩ := hty
      cases ty with
      | array element => exact .pure (h element hty)
      | prim _ | named _ | map _ _ => exact .fail rfl

/-- An access appends one statement on a global. -/
theorem yields_access {session : Location → Session Stmt} (name : String) (ty : Ty)
    (answer : Var → StmtKind)
    (hsession : ∀ location, session location s.program =
      (do return (⟨location, answer (← Session.global name ty)⟩ : Stmt)) s.program)
    (h : ∀ v t, t.program.globals.lookup name = some v → v.ty = ty →
      Q [⟨s.draft.location, answer v⟩] none () t) :
    Yields (do emit (← request (session (← location)))) s Q := by
  have hrequest : Yields (request (session s.draft.location)) s fun out fin (a : Stmt) u =>
      out = [] ∧ fin = none ∧ ∃ v, u.program.globals.lookup name = some v ∧ v.ty = ty ∧
        a = ⟨s.draft.location, answer v⟩ :=
    yields_global name ty (fun v => ⟨s.draft.location, answer v⟩) (hsession _)
      fun v _ _ hlookup hty => ⟨rfl, rfl, v, hlookup, hty, rfl⟩
  refine .read_bind rfl <| hrequest.bind fun _ _ a u _ ha => ?_
  obtain ⟨rfl, rfl, v, hlookup, hty, rfl⟩ := ha
  exact yields_emit fun _ _ => h v _ hlookup hty

variable {base : Lower Expr} {B : List Stmt → Option PathEnd → Expr → LoweringState → Prop}

/-- A field is read in one statement after those of the base. -/
theorem yields_readField {field : FieldSig} {dest : Var} (hbase : Yields base s B)
    (h : ∀ out fin e t, Emits s out fin t → B out fin e t → ∀ map u,
      u.program.globals.lookup field.mapName = some map → map.ty = .map [.named field.owner] field.ty →
      Q (out ++ [⟨t.draft.location, .assign (.var dest) (.cell map [e])⟩]) fin () u) :
    Yields (readField base field dest) s Q :=
  hbase.bind fun out fin e t hemits he =>
    yields_access field.mapName _ (fun map => .assign (.var dest) (.cell map [e])) (fun _ => rfl)
      fun map u hmap hty => by
        rw [Option.or_none]
        exact h out fin e t hemits he map u hmap hty

/-- A field is written in one statement after those of the base. -/
theorem yields_writeField {field : FieldSig} {value : Expr} (hbase : Yields base s B)
    (h : ∀ out fin e t, Emits s out fin t → B out fin e t → ∀ map u,
      u.program.globals.lookup field.mapName = some map → map.ty = .map [.named field.owner] field.ty →
      Q (out ++ [⟨t.draft.location, .assign (.cell map [e]) value⟩]) fin () u) :
    Yields (writeField base field value) s Q :=
  hbase.bind fun out fin e t hemits he =>
    yields_access field.mapName _ (fun map => .assign (.cell map [e]) value) (fun _ => rfl)
      fun map u hmap hty => by
        rw [Option.or_none]
        exact h out fin e t hemits he map u hmap hty

/-- A static field is read in one statement. -/
theorem yields_readStatic {field : FieldSig} {dest : Var}
    (h : ∀ v u, u.program.globals.lookup field.qualifiedName = some v → v.ty = field.ty →
      Q [⟨s.draft.location, .assign (.var dest) (.var v)⟩] none () u) :
    Yields (readStatic field dest) s Q :=
  yields_access field.qualifiedName _ (fun v => .assign (.var dest) (.var v)) (fun _ => rfl) h

/-- A static field is written in one statement. -/
theorem yields_writeStatic {field : FieldSig} {value : Expr}
    (h : ∀ v u, u.program.globals.lookup field.qualifiedName = some v → v.ty = field.ty →
      Q [⟨s.draft.location, .assign (.var v) value⟩] none () u) :
    Yields (writeStatic field value) s Q :=
  yields_access field.qualifiedName _ (fun v => .assign (.var v) value) (fun _ => rfl) h

end Lower

end GuardedFlow
