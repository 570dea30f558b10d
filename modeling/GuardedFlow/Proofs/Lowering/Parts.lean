import GuardedFlow.Proofs.Lowering.Emission

/-!
# The parts of calls, assignments and jumps

Names for the parts of the longer steps of a lowering, with the equations that take the steps apart.
-/

namespace GuardedFlow.Lower

/-! ### Calls -/

/-- Lower the assertion of the only argument of a call, whose result may not be used. -/
def assertion (call : Call (Lower Expr)) (dest : Option Expr) : Lower Unit :=
  if dest.isSome then fail (.resultUsed call.method)
  else do
    let condition ← onlyArgument call
    emitHere (.assert condition)

/-- Read the length of a string, as an access to the heap. -/
def readStringLength (location : Location) (base : Expr) (dest : Var) : Session Stmt :=
  return ⟨location, .assign (.var dest) (← Heap.stringLength base)⟩

/-- The length of a string is found in the map of a field. -/
theorem readStringLength_eq (location : Location) (base : Expr) (dest : Var) (p : Program) :
    readStringLength location base dest p = (do
      let map ← Heap.fieldMap ⟨p.config.stringClass, p.config.lengthFieldName, .int⟩
      return (⟨location, .assign (.var dest) (.cell map [base])⟩ : Stmt)) p := by
  have hlength : Heap.stringLength base p = (do
      let map ← Heap.fieldMap ⟨p.config.stringClass, p.config.lengthFieldName, .int⟩
      return Expr.cell map [base]) p := rfl
  rw [readStringLength, bind_run, hlength, bind_run, bind_run]
  cases Heap.fieldMap _ p <;> rfl

/-- The length of a string is assigned like the answer of an access to the heap. -/
theorem stringLength_eq (base : Expr) (dest : Var) :
    (do
      let length ← request (Heap.stringLength base)
      emitHere (.assign (.var dest) length)) =
      (do emit (← request (readStringLength (← location) base dest))) := by
  funext s
  change _ = (request (readStringLength s.draft.location base dest) >>= emit) s
  rw [bind_run, bind_run, request_run, request_run, readStringLength, bind_run]
  cases Heap.stringLength base s.program <;> rfl

/-- Call a method with the operands of a call, the receiver last if there is one. -/
def callMethod (base : Option (Lower Expr)) (call : Call (Lower Expr)) (dest : Option Expr) :
    Lower Unit := do
  let args ← arguments base call.args
  let id ← resolve call.method
  emitHere (.call (.method id call.method.text) args dest)

/-- Call an unknown method with the operands of an indirect call. -/
def callUnknown (call : Call (Lower Expr)) (dest : Option Expr) : Lower Unit := do
  let args ← arguments call.base call.args
  emitHere (.call (.unresolved call.method.text) args dest)

/-- Only the calls of some kinds have a receiver. -/
theorem resolvedCall_eq (call : Call (Lower Expr)) (dest : Option Expr) :
    resolvedCall call dest = if call.kind.hasReceiver then callMethod (some (receiver call)) call dest
      else callMethod none call dest := by
  unfold resolvedCall
  split <;> rfl

/-- An indirect call is refused, or reported and then lowered. -/
theorem indirectCall_eq (call : Call (Lower Expr)) (dest : Option Expr) :
    indirectCall call dest = (do
      if (← program).config.strictUnsupported then fail (.indirectCall call.method.text)
      else
        report .warning .call s!"unsound: indirect invocation of {call.method.text} treated as opaque call"
        callUnknown call dest) := by
  unfold indirectCall
  refine congrArg (program >>= ·) (funext fun p => ?_)
  split
  · exact fail_bind _ _
  · rfl

/-! ### Assignments -/

/-- Assign an operand that is not a call to a local: it is read, or evaluated and initialised. -/
def assignLocal (dest : Var) (source : Value) : Lower Unit :=
  match source with
  | .field .. | .staticField _ | .element .. => readHeap source dest
  | .length array => readLength array (operand array) dest
  | _ => do
    let value ← operand source
    emitHere (.assign (.var dest) value)
    initObject dest source

/-- An operand that is not a call goes to a heap location or to a local. -/
theorem assignOperand_eq (place source : Value) : assignOperand place source =
    if place.isHeapLocation then operand source >>= writeHeap place
    else targetVar place >>= fun dest => assignLocal dest source := rfl

/-- An assignment from one heap location to another is refused. -/
theorem assign_eq_fail {place source : Value} (h : place.isHeapLocation && source.isHeapLocation) :
    assign place source = fail .heapOnBothSides := by
  unfold assign
  simp only [h, if_true]
  exact fail_bind _ _

/-- An assignment without a heap location on both sides. -/
theorem assign_eq {place source : Value} : ¬ (place.isHeapLocation && source.isHeapLocation) →
    assign place source = match source with
      | .call kind method base args => assignCall place (prepare ⟨kind, method, base, args⟩)
      | _ => assignOperand place source := by
  intro h
  unfold assign
  simp only [h]
  rfl

/-- What is neither a heap location nor a local is not assigned to. -/
theorem assign_run_notAssignable {place : Value} (hplace : place.isHeapLocation = false)
    (hslot : ∀ slot, place ≠ .slot slot) (source : Value) (s : LoweringState) :
    assign place source s = .error (.lowering (.notAssignable place) s.draft.site) s := by
  cases place with
  | slot slot => exact absurd rfl (hslot slot)
  | field | staticField | element => cases hplace
  | _ => cases source <;> rfl

/-- Whether an operand is assigned to a local by the statement that reads or calls. -/
def isRead : Value → Bool
  | .field .. | .staticField _ | .element .. | .length _ | .call .. => true
  | _ => false

/-- Other operands are evaluated, and then assigned to the local. -/
theorem assign_slot_eq (slot : Nat) {source : Value} (h : isRead source = false) :
    assign (.slot slot) source = (do
      let dest ← localVar slot
      let value ← operand source
      emitHere (.assign (.var dest) value)
      initObject dest source) := by
  rw [assign_eq (by simp [Value.isHeapLocation])]
  cases source <;> first | rfl | cases h

/-! ### Jumps -/

/-- The second edge of a conditional jump, on the negated condition: it leads to the block of the next
instruction, or to the sink if there is none. -/
def fallThrough (source : BlockId) (condition : Expr) : Option Nat → Lower Unit
  | some next => do
    let rest ← blockAt next
    connect source rest (some condition.not)
    setOpen (some rest)
  | none => do
    connect source Flow.sink (some condition.not)
    setOpen none

/-- The two edges of a conditional jump. -/
def split (source : BlockId) (condition : Expr) (target : Nat) (next : Option Nat) : Lower Unit := do
  let block ← blockAt target
  connect source block (some condition)
  fallThrough source condition next

/-- Leave the open block on a condition that was lowered, unless the jump leads to the next instruction. -/
def fork (index target : Nat) (condition : Expr) : Lower Unit := do
  let next := (← draft).body.next? index
  if next = some target then return
  split (← currentBlock) condition target next

/-- A conditional jump lowers its condition before it looks at the blocks. -/
theorem branch_eq (index : Nat) (condition : Value) (target : Nat) :
    branch index condition target =
      (do
        checkTarget target
        fork index target (← operand condition)) := rfl

section Fork

variable {s : LoweringState} {index target : Nat}

/-- A jump to the next instruction does nothing. -/
theorem fork_next (h : s.draft.body.next? index = some target) (condition : Expr) :
    fork index target condition s = .ok () s := by
  change (if s.draft.body.next? index = some target then pure () else _ : Lower Unit) s = _
  rw [if_pos h]
  rfl

/-- Another jump leaves the open block by two edges. -/
theorem fork_open (h : s.draft.body.next? index ≠ some target) {source : BlockId}
    (hopen : s.openBlock = some source) (condition : Expr) : fork index target condition s =
      split source condition target (s.draft.body.next? index) s := by
  change (if s.draft.body.next? index = some target then pure () else
    currentBlock >>= fun source => split source condition target _ : Lower Unit) s = _
  rw [if_neg h, bind_run, currentBlock_run, hopen]

/-- No jump can be made where no block is open. -/
theorem fork_closed (h : s.draft.body.next? index ≠ some target) (hclosed : s.openBlock = none)
    (condition : Expr) :
    fork index target condition s = .error (.lowering .noOpenBlock s.draft.site) s := by
  change (if s.draft.body.next? index = some target then pure () else
    currentBlock >>= fun source => split source condition target _ : Lower Unit) s = _
  rw [if_neg h, bind_run, currentBlock_run, hclosed]

end Fork

/-! ### Entering an instruction -/

/-- Lead the open block to another one, and go on there. -/
def leadTo (source other : BlockId) : Lower Unit := do
  connect source other none
  setOpen (some other)

/-- Go on from the open block with the instruction at `index`. The block that starts there is given, if
one does. -/
def proceed (oracle : PredecessorOracle) (index : Nat) (source : BlockId) : Option BlockId → Lower Unit
  | some other => do
    if other ≠ source then
      leadTo source other
  | none => do
    if 1 < oracle.count index then
      leadTo source (← blockAt index)

/-- An instruction is entered from the open block, or else it starts a block. -/
theorem enter_eq (oracle : PredecessorOracle) (index : Nat) :
    enter oracle index =
      (do
        modify fun s => { s with draft := s.draft.moveTo index }
        let s ← get
        match s.openBlock with
        | none => setOpen (some (← blockAt index))
        | some source => proceed oracle index source (s.draft.blockAt? index)) := by
  unfold enter
  refine bind_congr fun _ => bind_congr fun s => ?_
  cases s.openBlock with
  | none => rfl
  | some source => cases s.draft.blockAt? index <;> rfl

section Enter

variable {oracle : PredecessorOracle} {index : Nat} {s : LoweringState}

/-- Where no block is open, the instruction starts one. -/
theorem enter_closed (hclosed : s.openBlock = none) : enter oracle index s =
    (blockAt index >>= fun block => setOpen (some block)) { s with draft := s.draft.moveTo index } := by
  obtain ⟨program, draft, openBlock⟩ := s
  cases hclosed
  rw [enter_eq]
  rfl

/-- Where a block is open, control goes on from there. -/
theorem enter_open {source : BlockId} (hopen : s.openBlock = some source) : enter oracle index s =
    proceed oracle index source (s.draft.blockAt? index) { s with draft := s.draft.moveTo index } := by
  obtain ⟨program, draft, openBlock⟩ := s
  cases hopen
  rw [enter_eq]
  rfl

end Enter

end GuardedFlow.Lower
