import GuardedFlow.Lowering.Monad
import GuardedFlow.Program.Heap

/-!
# Accesses to the heap

The statements for reads and writes of fields, array elements, array lengths and type tags. Operands
are given as the steps that lower them, so that each access decides when its operands are evaluated:
an array before its index, and both before the access.
-/

namespace GuardedFlow.Lower

/-- The type of an operand. -/
def typeOf (value : Value) : Lower Ty := do
  match (← draft).body.typeOf? value with
  | some ty => return ty
  | none => fail (.unknownType value)

/-- The element type of an operand that has to be an array. -/
def elementType (array : Value) : Lower Ty := do
  match ← typeOf array with
  | .array element => return element
  | ty => fail (.notArray array ty)

/-- Assign a field of an object to a variable. -/
def readField (base : Lower Expr) (field : FieldSig) (dest : Var) : Lower Unit := do
  let base ← base
  emit (← request (Heap.readField (← location) base field dest))

/-- Assign a static field to a variable. -/
def readStatic (field : FieldSig) (dest : Var) : Lower Unit := do
  emit (← request (Heap.readStatic (← location) field dest))

/-- Assign an array element to a variable. -/
def readElement (array : Value) (base index : Lower Expr) (dest : Var) : Lower Unit := do
  let element ← elementType array
  let base ← base
  let index ← index
  emit (← request (Heap.readElement (← location) base index element dest))

/-- Assign a value to a field of an object. -/
def writeField (base : Lower Expr) (field : FieldSig) (value : Expr) : Lower Unit := do
  let base ← base
  emit (← request (Heap.writeField (← location) base field value))

/-- Assign a value to a static field. -/
def writeStatic (field : FieldSig) (value : Expr) : Lower Unit := do
  emit (← request (Heap.writeStatic (← location) field value))

/-- Assign a value to an array element. -/
def writeElement (array : Value) (base index : Lower Expr) (value : Expr) : Lower Unit := do
  let element ← elementType array
  let base ← base
  let index ← index
  emit (← request (Heap.writeElement (← location) base index element value))

/-- Assign the length of an array to a variable. -/
def readLength (array : Value) (base : Lower Expr) (dest : Var) : Lower Unit := do
  let element ← elementType array
  let arrays ← arrayClass element
  readField base arrays.lengthField dest

/-- The type tag of an object, in a new temporary. -/
def readTag (object : Expr) : Lower Expr := do
  let field := (← program).typeField
  let temp ← freshTemp "$tmp" field.ty
  readField (pure object) field temp
  return .var temp

/-- Assign a type tag to the tag field of an object. -/
def writeTag (object : Expr) (ty : Ty) : Lower Unit := do
  writeField (pure object) (← program).typeField (.tag ty)

end GuardedFlow.Lower
