import GuardedFlow.Flow.Draft
import GuardedFlow.Program.Basic

/-!
# The state of a lowering

One body is lowered in one forward pass over its instructions. The pass changes the program, which it
asks for methods, array classes and globals, and the draft of the body's control-flow graph. One block
is open at a time: statements go into it until a jump, a return or the end of a path closes it. A
failing step keeps the changes that were made before it failed.
-/

namespace GuardedFlow

/-- What a lowering works on. -/
structure LoweringState where
  program : Program
  draft : Draft
  /-- The block that statements go into; none after the end of a path. -/
  openBlock : Option BlockId
  deriving Inhabited

/-- A step of a lowering. -/
abbrev Lower := EStateM Error LoweringState

namespace Lower

/-- Stop at the current instruction. -/
def fail {α : Type} (fault : Fault) : Lower α := fun s =>
  .error (.lowering fault s.draft.site) s

/-- Make a request to the program. -/
def request {α : Type} (session : Session α) : Lower α := fun s =>
  match session s.program with
  | .ok a program => .ok a { s with program }
  | .error e program => .error e { s with program }

/-- Change the draft, unless the change is refused. -/
def edit (change : Draft → Except Error Draft) : Lower Unit := fun s =>
  match change s.draft with
  | .ok draft => .ok () { s with draft }
  | .error e => .error e s

/-- The draft. -/
def draft : Lower Draft := return (← get).draft

/-- The program. -/
def program : Lower Program := return (← get).program

/-- The location of the current instruction. -/
def location : Lower Location := return (← get).draft.location

/-- The open block; a step that needs it fails when there is none. -/
def currentBlock : Lower BlockId := do
  match (← get).openBlock with
  | some block => return block
  | none => fail .noOpenBlock

/-- Let statements go into a block, or into none. -/
def setOpen (block : Option BlockId) : Lower Unit :=
  modify fun s => { s with openBlock := block }

/-- The block that starts at an instruction. -/
def blockAt (index : Nat) : Lower BlockId :=
  modifyGet fun s =>
    let (id, draft) := s.draft.blockAt index
    (id, { s with draft })

/-- Join two blocks. -/
def connect (source target : BlockId) (guard : Guard) : Lower Unit :=
  edit (·.connect source target guard)

/-- Append a statement to the open block. -/
def emit (stmt : Stmt) : Lower Unit := do
  let block ← currentBlock
  edit (·.append block stmt)

/-- Append a statement with the location of the current instruction to the open block. -/
def emitHere (kind : StmtKind) : Lower Unit := do
  emit ⟨← location, kind⟩

/-- A new temporary. -/
def freshTemp (stem : String) (ty : Ty) : Lower Var :=
  modifyGet fun s =>
    let (v, draft, supply) := s.draft.addTemp stem ty s.program.supply
    (v, { s with draft, program := { s.program with supply } })

/-- The variable of the caught exception. -/
def caughtException (ty : Ty) : Lower Var :=
  modifyGet fun s =>
    let (v, draft, supply) := s.draft.caughtException ty s.program.supply
    (v, { s with draft, program := { s.program with supply } })

/-- The number of a method of the program. -/
def resolve (sig : MethodSig) : Lower Nat :=
  modifyGet fun s =>
    let (id, program) := s.program.resolve sig
    (id, { s with program })

/-- The class of the arrays of an element type. -/
def arrayClass (element : Ty) : Lower ArrayClass :=
  modifyGet fun s =>
    let (arrays, program) := s.program.arrayClass element
    (arrays, { s with program })

/-- Report a finding about the current instruction. -/
def report (severity : Severity) (category : Category) (message : String) : Lower Unit :=
  modify fun s =>
    { s with
      program := s.program.report {
        severity
        category
        message
        method := s.draft.body.method.text
        location := s.draft.location } }

end Lower

end GuardedFlow
