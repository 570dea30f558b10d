import GuardedFlow.Code.Body
import GuardedFlow.Error

/-!
# Building bodies with labels

A body under construction refers to positions that are not known yet by labels. A jump to a label gets a
provisional target, and a note is taken of the slot that waits for the label. `Builder.finish` goes
through the notes and puts the positions of the labels into their slots. A label can be bound once,
before or after the jumps to it, and has to be bound to an instruction that exists in the end.
Operations given as they are jump to positions and are not checked.
-/

namespace GuardedFlow

/-- Where a jump leads in a body under construction. -/
inductive Target where
  | position (index : Nat)
  | label (name : String)
  deriving DecidableEq, Inhabited

namespace Target

/-- The name of the label, if the target is one. -/
def label? : Target → Option String
  | position _ => none
  | label name => some name

/-- The position that stands in for a target until labels are replaced. -/
def provisional : Target → Nat
  | position index => index
  | label _ => 0

end Target

/-- A jump target that waits for the position of a label. -/
structure PendingJump where
  /-- The position of the jump. -/
  index : Nat
  /-- The slot of the target in the operation. -/
  slot : Option Nat
  label : String
  deriving DecidableEq, Inhabited

namespace PendingJump

/-- The jumps of an operation that lead to labels, in the order in which they are written. -/
def ofOp (index : Nat) (op : Op Target) : List PendingJump :=
  op.slots.filterMap fun (slot, target) => target.label?.map (⟨index, slot, ·⟩)

end PendingJump

/-- A body under construction. -/
structure Builder where
  method : MethodSig
  isStatic : Bool
  isSynchronized : Bool
  locals : Array LocalDecl
  code : Array Instr
  /-- The bound labels with their positions. -/
  labels : List (String × Nat)
  /-- The jumps to labels, in the order in which they were made. -/
  pending : List PendingJump
  /-- The position given to the instructions that follow. -/
  location : Location
  deriving Inhabited

namespace Builder

/-- A static body without instructions. -/
def new (method : MethodSig) : Builder :=
  { method
    isStatic := true
    isSynchronized := false
    locals := #[]
    code := #[]
    labels := []
    pending := []
    location := .unknown }

/-- Keep the file of the current location and move to a line. -/
def atLine (b : Builder) (line : UInt32) : Builder :=
  { b with location := { b.location with line := some line } }

/-- Declare a local. -/
def declare (b : Builder) (name : String) (ty : Ty) : Nat × Builder :=
  (b.locals.size, { b with locals := b.locals.push ⟨name, ty⟩ })

/-- Append an operation whose jumps lead to positions. -/
def push (b : Builder) (op : Op Nat) : Nat × Builder :=
  (b.code.size, { b with code := b.code.push ⟨op, b.location⟩ })

/-- Append an operation whose jumps may lead to labels. -/
def append (b : Builder) (op : Op Target) : Nat × Builder :=
  let (index, b) := b.push (op.map Target.provisional)
  (index, { b with pending := b.pending ++ PendingJump.ofOp index op })

/-- Declare a local and bind it to a parameter. -/
def param (b : Builder) (name : String) (index : Nat) (ty : Ty) : Nat × Builder :=
  let (slot, b) := b.declare name ty
  (slot, (b.push (.identity slot (.parameter index ty))).2)

/-- Declare a local and bind it to the receiver; the method is not static from here on. -/
def receiver (b : Builder) (ty : Ty) : Nat × Builder :=
  let (slot, b) := { b with isStatic := false }.declare "this" ty
  (slot, (b.push (.identity slot (.receiver ty))).2)

/-- Bind a label to the position of the next instruction. -/
def label (b : Builder) (name : String) : Except Error Builder :=
  if (b.labels.lookup name).isSome then .error (.duplicateLabel name)
  else .ok { b with labels := (name, b.code.size) :: b.labels }

/-- The position of the instruction that a label is bound to. -/
def resolve (b : Builder) (name : String) : Except Error Nat :=
  match b.labels.lookup name with
  | some index => if index < b.code.size then .ok index else .error (.undefinedLabel name)
  | none => .error (.undefinedLabel name)

/-- Put the position of the label that a jump waits for into its slot. -/
def settle (b : Builder) (code : Array Instr) (jump : PendingJump) : Except Error (Array Instr) := do
  let target ← b.resolve jump.label
  return code.modify jump.index fun instr => { instr with op := instr.op.redirect jump.slot target }

/-- The finished body, unless a jump leads to a label that is bound to no instruction. -/
def finish (b : Builder) : Except Error Body := do
  let code ← b.pending.foldlM b.settle b.code
  return {
    method := b.method
    isStatic := b.isStatic
    isSynchronized := b.isSynchronized
    locals := b.locals
    code }

end Builder

end GuardedFlow
