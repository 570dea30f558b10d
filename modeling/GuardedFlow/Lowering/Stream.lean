import GuardedFlow.Code.Transfer
import GuardedFlow.Lowering.Instruction

/-!
# Instruction streams

Blocks are found in one forward pass. An instruction extends the open block unless another block
starts there already, because of an earlier jump, or several instructions can precede it; then the
open block leads to the block that starts there. With no open block the instruction starts one.
-/

namespace GuardedFlow

namespace Lower

/-- Decide which block the instruction at `index` belongs to, and open it. -/
def enter (oracle : PredecessorOracle) (index : Nat) : Lower Unit := do
  modify fun s => { s with draft := s.draft.moveTo index }
  let s ← get
  match s.openBlock with
  | none => setOpen (some (← blockAt index))
  | some block =>
    match s.draft.blockAt? index with
    | some other =>
      if other ≠ block then
        connect block other none
        setOpen (some other)
    | none =>
      if 1 < oracle.count index then
        let other ← blockAt index
        connect block other none
        setOpen (some other)

/-- Lower the instruction at `index`. -/
def instruction (oracle : PredecessorOracle) (instr : Instr) (index : Nat) : Lower Unit := do
  enter oracle index
  operation index instr.op

/-- Lower the instructions from `index` on. -/
def instructions (oracle : PredecessorOracle) : List Instr → Nat → Lower Unit
  | [], _ => pure ()
  | instr :: rest, index => do
    instruction oracle instr index
    instructions oracle rest (index + 1)

/-- Lead the block that is open at the end, and the entry of an empty stream, to the sink. -/
def close (body : Body) : Lower Unit := do
  if body.code.isEmpty then
    connect Flow.entry Flow.sink none
  else
    match (← get).openBlock with
    | some block =>
      setOpen none
      connect block Flow.sink none
    | none => pure ()

/-- Lower the instruction stream of a body. -/
def stream (oracle : PredecessorOracle) (body : Body) : Lower Unit := do
  instructions oracle body.code.toList 0
  close body

end Lower

namespace Session

/-- The control-flow graph of a body. It is not attached to the method of the body. -/
def flowOf (body : Body) (oracle : PredecessorOracle) : Session Flow := fun p =>
  let (draft, supply) := Draft.start body p.supply
  match Lower.stream oracle body ⟨{ p with supply }, draft, none⟩ with
  | .ok _ s => .ok s.draft.finish s.program
  | .error e s => .error e s.program

end Session

end GuardedFlow
