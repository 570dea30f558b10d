import GuardedFlow.Lowering.Stream

/-!
# Lowering the methods of a program

A body is lowered into the method of its signature, which can happen once. A batch of bodies is
lowered in order; a body that fails is skipped and leaves an error in the log, and the others go on.
-/

namespace GuardedFlow

namespace Program

/-- Attach a control-flow graph to a method that has none. -/
def install (p : Program) (id : Nat) (flow : Flow) : Except Error Program :=
  match p.method? id with
  | some method =>
    if method.hasBody then .error (.alreadyLowered method.signature)
    else .ok { p with methods := p.methods.modify id ({ · with flow := some flow }) }
  | none => .ok p

end Program

namespace Session

/-- Lower a body into the method of its signature, whose number is returned. -/
def lower (body : Body) (oracle : PredecessorOracle) : Session Nat := do
  let id ← modifyGet (·.resolve body.method)
  let flow ← flowOf body oracle
  match (← get).install id flow with
  | .ok p => set p
  | .error e => throw e
  return id

/-- Lower a body, counting predecessors by its own transfers of control. -/
def lowerByTransfers (body : Body) : Session Nat :=
  lower body body.predecessorOracle

/-- Lower the bodies of a batch one after another. -/
def lowerAll (bodies : List Body) (p : Program) : List (Except Error Nat) × Program :=
  match bodies with
  | [] => ([], p)
  | body :: rest =>
    let (slot, p) :=
      match lowerByTransfers body p with
      | .ok id p => (Except.ok id, p)
      | .error e p =>
        (Except.error e, p.report {
          severity := .error
          category := .general
          message := s!"method skipped: {e}"
          method := body.method.text })
    let (slots, p) := lowerAll rest p
    (slot :: slots, p)

end Session

end GuardedFlow
