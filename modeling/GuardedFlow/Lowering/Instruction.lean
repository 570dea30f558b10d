import GuardedFlow.Lowering.Operand

/-!
# Instructions

How each operation is lowered. An assignment has a heap location on at most one side and becomes one
read, one write or one plain assignment. An allocation that is assigned to a local also gets its type
tag, and an array its length. A jump closes the open block; a conditional jump leaves it by two edges
with complementary guards, unless both lead to the next instruction.
-/

namespace GuardedFlow.Lower

/-- The variable that an operand on the left of an assignment stands for. -/
def targetVar : Value → Lower Var
  | .slot index => localVar index
  | value => fail (.notAssignable value)

/-- Assign a heap location to a variable. -/
def readHeap (place : Value) (dest : Var) : Lower Unit :=
  match place with
  | .field base field => readField (operand base) field dest
  | .staticField field => readStatic field dest
  | .element base index => readElement base (operand base) (operand index) dest
  | place => fail (.notHeapLocation place)

/-- Assign a value to a heap location. -/
def writeHeap (place : Value) (value : Expr) : Lower Unit :=
  match place with
  | .field base field => writeField (operand base) field value
  | .staticField field => writeStatic field value
  | .element base index => writeElement base (operand base) (operand index) value
  | place => fail (.notHeapLocation place)

/-- Give a new object its type tag. The length of a new array is read into a temporary, and assumed
to be the requested one. -/
def initObject (dest : Var) (allocation : Value) : Lower Unit := do
  match allocation.allocated? with
  | none => pure ()
  | some ty =>
    writeTag (.var dest) ty
    match allocation with
    | .newArray element size =>
      let size ← operand size
      let length ← freshTemp "$arrSizeLocal" .int
      let arrays ← arrayClass element
      readField (pure (.var dest)) arrays.lengthField length
      emitHere (.assume (.binary .eq (.var length) size))
    | _ => pure ()

/-- Assign the result of a call. -/
def assignCall (place : Value) (source : Call (Lower Expr)) : Lower Unit := do
  if place.isHeapLocation then
    let temp ← freshTemp "$tmp" source.method.result
    call source (some (.var temp))
    writeHeap place (.var temp)
  else
    let dest ← targetVar place
    call source (some (.var dest))

/-- Assign an operand that is not a call. -/
def assignOperand (place source : Value) : Lower Unit := do
  if place.isHeapLocation then
    let value ← operand source
    writeHeap place value
  else
    let dest ← targetVar place
    match source with
    | .field .. | .staticField _ | .element .. => readHeap source dest
    | .length array => readLength array (operand array) dest
    | _ =>
      let value ← operand source
      emitHere (.assign (.var dest) value)
      initObject dest source

/-- Lower an assignment. -/
def assign (place source : Value) : Lower Unit := do
  if place.isHeapLocation && source.isHeapLocation then fail .heapOnBothSides
  match source with
  | .call kind method base args => assignCall place (prepare ⟨kind, method, base, args⟩)
  | _ => assignOperand place source

/-- Lower the binding of a local. -/
def identity (slot : Nat) (source : Value) : Lower Unit := do
  let dest ← localVar slot
  let value ← operand source
  emitHere (.assign (.var dest) value)

/-- Refuse a jump that leaves the stream. -/
def checkTarget (target : Nat) : Lower Unit := do
  if (← draft).body.code.size ≤ target then fail (.targetOutside (positionText target))

/-- Lower a jump. -/
def goto (target : Nat) : Lower Unit := do
  checkTarget target
  let source ← currentBlock
  let block ← blockAt target
  connect source block none
  setOpen none

/-- Lower a conditional jump of the instruction at `index`. The condition is lowered even if it does
not decide anything. -/
def branch (index : Nat) (condition : Value) (target : Nat) : Lower Unit := do
  checkTarget target
  let condition ← operand condition
  let next := (← draft).body.next? index
  if next = some target then return
  let source ← currentBlock
  let block ← blockAt target
  connect source block (some condition)
  match next with
  | some next =>
    let rest ← blockAt next
    connect source rest (some condition.not)
    setOpen (some rest)
  | none =>
    connect source Flow.sink (some condition.not)
    setOpen none

/-- Lower the entry or the exit of a monitor: the lock is evaluated, and the missing synchronization
is reported. -/
def monitor (name : String) (lock : Value) : Lower Unit := do
  let _ ← operand lock
  modify fun s => { s with draft := { s.draft with usesMonitors := true } }
  report .info .monitor s!"{name} {lock}: synchronization not modelled"

/-- Lower the operation of the instruction at `index`. -/
def operation (index : Nat) : Op Nat → Lower Unit
  | .assign place source => assign place source
  | .identity slot source => identity slot source
  | .goto target => goto target
  | .branch condition target => branch index condition target
  | .invoke source => call (prepare source) none
  | .ret value => returnValue (operand value)
  | .retVoid => returnVoid
  | .monitorEnter lock => monitor "entermonitor" lock
  | .monitorExit lock => monitor "exitmonitor" lock
  | .nop | .breakpoint => pure ()
  | .tableSwitch .. | .lookupSwitch .. => fail .switchRemains
  | .subroutineReturn _ => fail .subroutineRemains
  | .throw _ => fail .throwRemains

end GuardedFlow.Lower
