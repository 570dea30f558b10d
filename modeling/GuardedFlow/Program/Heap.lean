import GuardedFlow.Program.Basic

/-!
# The heap model

The heap is split by field. Each instance field is a global map from objects to values, each element
type is a global map from arrays and indices to values, and each static field is a global variable.
Every access is one assignment from or to such a map, so two accesses can only meet if they go
through the same map.
-/

namespace GuardedFlow.Heap

/-- The map of an instance field. -/
def fieldMap (field : FieldSig) : Session Var :=
  Session.global s!"$heap<{field.qualifiedName}>" (.map [.named field.owner] field.ty)

/-- The map of the arrays of an element type. -/
def arrayMap (element : Ty) : Session Var :=
  Session.global s!"$array<{element}>" (.map [.array element, .int] element)

/-- The variable of a static field. -/
def staticVar (field : FieldSig) : Session Var :=
  Session.global field.qualifiedName field.ty

/-- Read a field of an object. -/
def readField (location : Location) (base : Expr) (field : FieldSig) (dest : Var) :
    Session Stmt := do
  let map ← fieldMap field
  return ⟨location, .assign (.var dest) (.cell map [base])⟩

/-- Write a field of an object. -/
def writeField (location : Location) (base : Expr) (field : FieldSig) (value : Expr) :
    Session Stmt := do
  let map ← fieldMap field
  return ⟨location, .assign (.cell map [base]) value⟩

/-- Read a static field. -/
def readStatic (location : Location) (field : FieldSig) (dest : Var) : Session Stmt := do
  let v ← staticVar field
  return ⟨location, .assign (.var dest) (.var v)⟩

/-- Write a static field. -/
def writeStatic (location : Location) (field : FieldSig) (value : Expr) : Session Stmt := do
  let v ← staticVar field
  return ⟨location, .assign (.var v) value⟩

/-- Read an element of an array. -/
def readElement (location : Location) (base index : Expr) (element : Ty) (dest : Var) :
    Session Stmt := do
  let map ← arrayMap element
  return ⟨location, .assign (.var dest) (.cell map [base, index])⟩

/-- Write an element of an array. -/
def writeElement (location : Location) (base index : Expr) (element : Ty) (value : Expr) :
    Session Stmt := do
  let map ← arrayMap element
  return ⟨location, .assign (.cell map [base, index]) value⟩

/-- The length of a string. -/
def stringLength (base : Expr) : Session Expr := do
  let config := (← get).config
  let map ← fieldMap ⟨config.stringClass, config.lengthFieldName, .int⟩
  return .cell map [base]

end GuardedFlow.Heap
