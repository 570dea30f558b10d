import GuardedFlow.Operator
import GuardedFlow.Real.Layout
import GuardedFlow.Text.Quoted
import GuardedFlow.Ty

/-!
# Operand trees

The operands of instructions. Unlike an expression of lowered code an operand may read the heap,
allocate or call, at any depth. Locals are referred to by their position in the body that declares
them.
-/

namespace GuardedFlow

/-- Constants of an instruction stream. -/
inductive Const where
  | int (value : Int32)
  | long (value : Int64)
  | float (value : Binary32)
  | double (value : Binary64)
  | bool (value : Bool)
  | null
  | str (value : String)
  /-- A class constant. -/
  | type (ty : Ty)
  deriving DecidableEq, Inhabited

namespace Const

/-- The printed form of a constant. -/
def text : Const → String
  | int value => toString value
  | long value => toString value ++ "L"
  | float value => value.text ++ "F"
  | double value => value.text
  | bool value => toString value
  | null => "null"
  | str value => Text.quote value
  | type ty => "class " ++ ty.text

instance : ToString Const := ⟨text⟩

/-- The zero of a type; `void` has none. -/
def zero? : Ty → Option Const
  | .prim .void => none
  | .prim .boolean => some (bool false)
  | .prim .byte | .prim .char | .prim .short | .prim .int => some (int 0)
  | .prim .long => some (long 0)
  | .prim .float => some (float .zero)
  | .prim .double => some (double .zero)
  | .prim .null | .named _ | .array _ | .map .. => some null

end Const

/-- How a call finds its callee. -/
inductive CallKind where
  | static
  | virtual
  | special
  | interface
  /-- An indirect call, resolved when it is executed. -/
  | dynamic
  deriving DecidableEq, Inhabited

namespace CallKind

/-- The printed form of a kind of call. -/
def text : CallKind → String
  | static => "staticinvoke"
  | virtual => "virtualinvoke"
  | special => "specialinvoke"
  | interface => "interfaceinvoke"
  | dynamic => "dynamicinvoke"

instance : ToString CallKind := ⟨text⟩

/-- Whether calls of this kind pass a receiver. -/
def hasReceiver : CallKind → Bool
  | virtual | special | interface => true
  | static | dynamic => false

end CallKind

/-- A call whose operands have the type `α`. -/
structure Call (α : Type) where
  kind : CallKind
  method : MethodSig
  base : Option α
  args : List α
  deriving Inhabited

namespace Call

/-- The printed form of a call with printed operands. -/
def text (call : Call String) : String :=
  call.kind.text ++ " " ++
    (match call.base with
      | some base => base ++ "."
      | none => "") ++
    call.method.text ++ "(" ++ ", ".intercalate call.args ++ ")"

/-- Replace the operands of a call. -/
def map {α β : Type} (f : α → β) (call : Call α) : Call β :=
  { call with base := call.base.map f, args := call.args.map f }

end Call

/-- The printed form of a local. -/
def slotText (slot : Nat) : String := s!"l{slot}"

/-- An operand tree. -/
inductive Value where
  /-- A local of the body. -/
  | slot (index : Nat)
  | const (value : Const)
  | unary (op : UnaryOp) (operand : Value)
  | binary (op : BinaryOp) (left right : Value)
  | cast (ty : Ty) (operand : Value)
  | instanceOf (ty : Ty) (operand : Value)
  | length (array : Value)
  | new (ty : Ty)
  | newArray (element : Ty) (size : Value)
  /-- An array of the given type with the lengths of its leading dimensions. -/
  | newMultiArray (ty : Ty) (sizes : List Value)
  | field (base : Value) (field : FieldSig)
  | staticField (field : FieldSig)
  | element (base index : Value)
  | call (kind : CallKind) (method : MethodSig) (base : Option Value) (args : List Value)
  | parameter (index : Nat) (ty : Ty)
  | receiver (ty : Ty)
  | caughtException (ty : Ty)
  deriving Inhabited

namespace Value

mutual

/-- The printed form of an operand. -/
def text : Value → String
  | slot index => slotText index
  | const value => value.text
  | unary op operand => op.symbol ++ operand.text
  | binary op left right => left.text ++ " " ++ op.symbol ++ " " ++ right.text
  | cast ty operand => "(" ++ ty.text ++ ") " ++ operand.text
  | instanceOf ty operand => operand.text ++ " instanceof " ++ ty.text
  | length array => "lengthof " ++ array.text
  | new ty => "new " ++ ty.text
  | newArray entry size => "newarray (" ++ entry.text ++ ")[" ++ size.text ++ "]"
  | newMultiArray ty sizes =>
    "newmultiarray (" ++ ty.text ++ ")" ++ String.join ((texts sizes).map fun s => "[" ++ s ++ "]")
  | field base f => base.text ++ "." ++ f.text
  | staticField f => f.text
  | element base index => base.text ++ "[" ++ index.text ++ "]"
  | call kind method base args => Call.text ⟨kind, method, text? base, texts args⟩
  | parameter index ty => s!"@parameter{index}: {ty}"
  | receiver ty => s!"@this: {ty}"
  | caughtException _ => "@caughtexception"

/-- The printed forms of a list of operands. -/
def texts : List Value → List String
  | [] => []
  | v :: rest => v.text :: texts rest

/-- The printed form of an operand that may be absent. -/
def text? : Option Value → Option String
  | none => none
  | some v => some v.text

end

instance : ToString Value := ⟨text⟩

/-- Whether the operand is a field or an array element. -/
def isHeapLocation : Value → Bool
  | field .. | staticField _ | element .. => true
  | _ => false

/-- The type of the object that an operand allocates. -/
def allocated? : Value → Option Ty
  | new ty | newMultiArray ty _ => some ty
  | newArray entry _ => some (.array entry)
  | _ => none

/-- Whether the operand allocates an object. -/
def isAllocation (v : Value) : Bool := v.allocated?.isSome

end Value

end GuardedFlow
