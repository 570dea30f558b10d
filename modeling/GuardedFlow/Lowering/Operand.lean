import GuardedFlow.Lowering.Call

/-!
# Operands

An operand tree becomes an expression. Its parts that have an effect or read the heap are evaluated
first, each into a new temporary, by statements in the open block; casts leave no trace. A binary
operator evaluates its left operand before its right one.
-/

namespace GuardedFlow.Lower

/-- The variable of a local. -/
def localVar (slot : Nat) : Lower Var := do
  match (← draft).locals[slot]? with
  | some v => return v
  | none => fail (.undeclaredLocal slot)

/-- The variable of a parameter. -/
def paramVar (index : Nat) : Lower Var := do
  match (← draft).params[index]? with
  | some v => return v
  | none => fail (.parameterOutOfRange index)

/-- The variable of the receiver. -/
def receiverVar : Lower Var := do
  match (← draft).receiver with
  | some v => return v
  | none => fail .receiverInStatic

/-- Evaluate into a new temporary. -/
def intoTemp (ty : Ty) (evaluate : Var → Lower Unit) : Lower Expr := do
  let temp ← freshTemp "$tmp" ty
  evaluate temp
  return .var temp

mutual

/-- Lower an operand. -/
def operand : Value → Lower Expr
  | .slot index => return .var (← localVar index)
  | .const value => return .lit (literal value)
  | .unary op v => return .unary op (← operand v)
  | .binary op left right => do
    let left ← operand left
    let right ← operand right
    return .binary op left right
  | .cast _ v => operand v
  | .instanceOf ty v => do
    let object ← operand v
    let tag ← readTag object
    return .binary .subtype tag (.tag ty)
  | .length array => intoTemp .int fun temp => readLength array (operand array) temp
  | .new ty | .newMultiArray ty _ => return .alloc ty
  | .newArray element _ => return .alloc (.array element)
  | .field base field => do
    let ty ← typeOf (.field base field)
    intoTemp ty fun temp => readField (operand base) field temp
  | .staticField field => do
    let ty ← typeOf (.staticField field)
    intoTemp ty fun temp => readStatic field temp
  | .element base index => do
    let ty ← typeOf (.element base index)
    intoTemp ty fun temp => readElement base (operand base) (operand index) temp
  | .call kind method base args =>
    intoTemp method.result fun temp =>
      call ⟨kind, method, operand? base, operands args⟩ (some (.var temp))
  | .parameter index _ => return .var (← paramVar index)
  | .receiver _ => return .var (← receiverVar)
  | .caughtException ty => return .var (← caughtException ty)

/-- The steps that lower the operands of a list. -/
def operands : List Value → List (Lower Expr)
  | [] => []
  | v :: rest => operand v :: operands rest

/-- The step that lowers an operand that may be absent. -/
def operand? : Option Value → Option (Lower Expr)
  | none => none
  | some v => some (operand v)

end

/-- The call with the steps that lower its operands. -/
def prepare (call : Call Value) : Call (Lower Expr) :=
  ⟨call.kind, call.method, operand? call.base, operands call.args⟩

end GuardedFlow.Lower
