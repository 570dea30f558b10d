import GuardedFlow.Code.Instr

/-!
# Method bodies

The instruction stream of a method with the locals that it declares. Instructions are identified by
their position. `Body.typeOf?` gives the type of an operand as far as the declarations determine it.
-/

namespace GuardedFlow

/-- A local that a body declares. -/
structure LocalDecl where
  name : String
  ty : Ty
  deriving DecidableEq, Inhabited

/-- The instruction stream of a method. -/
structure Body where
  method : MethodSig
  /-- A static method has no receiver. -/
  isStatic : Bool
  isSynchronized : Bool
  locals : Array LocalDecl
  code : Array Instr
  deriving Inhabited

namespace Body

/-- The position after `index`, if it is in the stream. -/
def next? (body : Body) (index : Nat) : Option Nat :=
  if index + 1 < body.code.size then some (index + 1) else none

/-- The position of an instruction with its text. -/
def describe (body : Body) (index : Nat) : String :=
  match body.code[index]? with
  | some instr => s!"{positionText index}: {instr}"
  | none => s!"{positionText index}: <out of range>"

/-- The type of an operand. There is none for undeclared locals and for elements of operands that
are not arrays. -/
def typeOf? (body : Body) : Value → Option Ty
  | .slot index => body.locals[index]?.map LocalDecl.ty
  | .const value =>
    some <| match value with
      | .int _ => .int
      | .long _ => .prim .long
      | .float _ => .prim .float
      | .double _ => .prim .double
      | .bool _ => .boolean
      | .null => .null
      | .str _ => .named "java.lang.String"
      | .type _ => .named "java.lang.Class"
  | .unary .not _ => some .boolean
  | .unary .neg operand => body.typeOf? operand
  | .binary op left _ =>
    match op with
    | .cmp | .cmpl | .cmpg => some .int
    | _ => if op.isPredicate then some .boolean else body.typeOf? left
  | .cast ty _ | .new ty | .newMultiArray ty _ => some ty
  | .instanceOf .. => some .boolean
  | .length _ => some .int
  | .newArray element _ => some (.array element)
  | .field _ field | .staticField field => some field.ty
  | .element base _ => (body.typeOf? base).bind Ty.element?
  | .call _ method _ _ => some method.result
  | .parameter _ ty | .receiver ty | .caughtException ty => some ty

end Body

end GuardedFlow
