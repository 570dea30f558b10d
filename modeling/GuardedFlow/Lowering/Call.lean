import GuardedFlow.Lowering.Access

/-!
# Calls and returns

Calls of library methods with a meaning of their own are lowered by their idiom, all others to call
statements. Arguments are evaluated from left to right and the receiver after them, although it is
passed first. Operands are given as the steps that lower them; a lowering that does not need an
operand does not evaluate it.
-/

namespace GuardedFlow.Lower

/-- Leave the method: the open block leads to the sink, and the path ends. -/
def returnVoid : Lower Unit := do
  let block ← currentBlock
  connect block Flow.sink none
  setOpen none

/-- Leave the method with a value. -/
def returnValue (value : Lower Expr) : Lower Unit := do
  match (← draft).result with
  | none => fail .valueFromVoid
  | some result =>
    let value ← value
    emitHere (.assign (.var result) value)
    returnVoid

/-- The constant of an expression; both widths of numbers go to the wider one. -/
def literal : Const → Literal
  | .int value => .int value.toInt64
  | .long value => .int value
  | .float value => .real value.widen
  | .double value => .real value
  | .bool value => .bool value
  | .null => .null
  | .str value => .str value
  | .type ty => .type ty

/-- Lower arguments from left to right, and then the receiver that goes in front of them. -/
def arguments (base : Option (Lower Expr)) (args : List (Lower Expr)) : Lower (List Expr) := do
  let args ← args.mapM id
  match base with
  | some base => return (← base) :: args
  | none => return args

/-- Lower the receiver of a call, which has to have one. -/
def receiver (call : Call (Lower Expr)) : Lower Expr :=
  match call.base with
  | some base => base
  | none => fail (.missingReceiver call.kind)

/-- Lower the only argument of a call. -/
def onlyArgument (call : Call (Lower Expr)) : Lower Expr :=
  match call.args with
  | [arg] => arg
  | args => fail (.argumentCount call.method args.length)

/-- Store the answer of a query. -/
def answer (dest : Option Expr) (value : Expr) : Lower Unit :=
  match dest with
  | some dest => emitHere (.assign dest value)
  | none => fail .queryWithoutResult

/-- Lower a call by its idiom. -/
def idiom (kind : IdiomKind) (call : Call (Lower Expr)) (dest : Option Expr) : Lower Unit :=
  match kind with
  | .assertion | .precondition =>
    if dest.isSome then fail (.resultUsed call.method)
    else do
      let condition ← onlyArgument call
      emitHere (.assert condition)
  | .stringLength =>
    match dest with
    | none => pure ()
    | some dest => do
      let base ← receiver call
      let length ← request (Heap.stringLength base)
      emitHere (.assign dest length)
  | .exit => do
    report .info .control s!"{call.method} ends the path"
    setOpen none
  | .testFailure => do
    match Const.zero? (← draft).body.method.result with
    | some zero => returnValue (pure (.lit (literal zero)))
    | none => returnVoid
  | .isAssignableFrom => do
    let base ← receiver call
    let arg ← onlyArgument call
    answer dest (.binary .subtype arg base)
  | .getClass => do
    let base ← receiver call
    answer dest (← readTag base)
  | .cast => do
    let base ← receiver call
    let arg ← onlyArgument call
    let tag ← readTag arg
    emitHere (.assert (.binary .subtype tag base))
    answer dest arg
  | .isInstance => do
    let base ← receiver call
    let arg ← onlyArgument call
    let tag ← readTag arg
    answer dest (.binary .subtype tag base)

/-- Lower a call to a call statement on a method of the program. -/
def resolvedCall (call : Call (Lower Expr)) (dest : Option Expr) : Lower Unit := do
  let base := if call.kind.hasReceiver then some (receiver call) else none
  let args ← arguments base call.args
  let id ← resolve call.method
  emitHere (.call (.method id call.method.text) args dest)

/-- Lower an indirect call, whose callee is not known. -/
def indirectCall (call : Call (Lower Expr)) (dest : Option Expr) : Lower Unit := do
  let signature := call.method.text
  if (← program).config.strictUnsupported then fail (.indirectCall signature)
  report .warning .call s!"unsound: indirect invocation of {signature} treated as opaque call"
  let args ← arguments call.base call.args
  emitHere (.call (.unresolved signature) args dest)

/-- Lower a call, and store its result if it is used. -/
def call (call : Call (Lower Expr)) (dest : Option Expr) : Lower Unit := do
  if call.kind = .dynamic then
    indirectCall call dest
  else
    match Idiom.lookup (← program).idioms ⟨call.method, dest.isSome⟩ with
    | some kind => idiom kind call dest
    | none => resolvedCall call dest

end GuardedFlow.Lower
