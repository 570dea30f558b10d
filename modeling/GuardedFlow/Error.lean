import GuardedFlow.Code.Value
import GuardedFlow.Graph.Basic
import GuardedFlow.Location

/-!
# Errors

Why a body cannot be built or lowered. A fault found while an instruction is lowered names its cause
and, through its site, the instruction. The nature of a fault tells whether the instruction stream
should have been normalised first, whether the stream contradicts itself, or whether the construct has
no sound lowering. All wording is in `Fault.message` and `Error.message`.
-/

namespace GuardedFlow

/-- Where an error was found. -/
structure Site where
  /-- The position and the text of the instruction. -/
  instruction : String
  location : Location
  deriving DecidableEq, Inhabited

namespace Site

/-- The site of errors that are found outside of any instruction. -/
def outside : Site := ⟨"<none>", .unknown⟩

end Site

/-- The nature of a fault. -/
inductive FaultNature where
  /-- An operation that has to be removed before lowering. -/
  | structural
  /-- A contradiction in the instruction stream. -/
  | invariant
  /-- A construct whose lowering would not be sound. -/
  | unsupported
  deriving DecidableEq, Inhabited

/-- The causes of faults. -/
inductive Fault where
  | targetOutside (target : String)
  | switchRemains
  | subroutineRemains
  | throwRemains
  | noOpenBlock
  | duplicateEdge (source target : String)
  | valueFromVoid
  | missingReceiver (kind : CallKind)
  | argumentCount (method : MethodSig) (count : Nat)
  | resultUsed (method : MethodSig)
  | queryWithoutResult
  | parameterOutOfRange (index : Nat)
  | receiverInStatic
  | heapOnBothSides
  | notHeapLocation (value : Value)
  | undeclaredLocal (slot : Nat)
  | notAssignable (value : Value)
  | unknownType (value : Value)
  | notArray (value : Value) (ty : Ty)
  | globalConflict (name : String) (requested declared : Ty)
  | indirectCall (signature : String)
  deriving Inhabited

namespace Fault

/-- The nature of a cause. -/
def nature : Fault → FaultNature
  | targetOutside _ | switchRemains | subroutineRemains | throwRemains => .structural
  | indirectCall _ => .unsupported
  | _ => .invariant

/-- The wording of a cause. -/
def message : Fault → String
  | targetOutside target => s!"jump target {target} is outside the instruction stream"
  | switchRemains => "switch must be lowered to binary branches"
  | subroutineRemains => "subroutine return must be inlined"
  | throwRemains => "throw must be replaced by explicit control flow"
  | noOpenBlock => "no open block"
  | duplicateEdge source target => s!"duplicate edge {source} -> {target}"
  | valueFromVoid => "return with a value in a void method"
  | missingReceiver kind => s!"{kind} call without receiver"
  | argumentCount method count => s!"{method} expects one argument, got {count}"
  | resultUsed method => s!"result of {method} is used"
  | queryWithoutResult => "type query lowered without a result"
  | parameterOutOfRange index => s!"parameter {index} out of range"
  | receiverInStatic => "receiver reference in a static method"
  | heapOnBothSides => "heap reference on both sides of an assignment"
  | notHeapLocation value => s!"{value} is not a heap location"
  | undeclaredLocal slot => s!"local {slotText slot} is not declared"
  | notAssignable value => s!"{value} is not assignable"
  | unknownType value => s!"cannot determine the type of {value}"
  | notArray value ty => s!"{value} has non-array type {ty}"
  | globalConflict name requested declared =>
    s!"global {name} requested as {requested}, already declared as {declared}"
  | indirectCall signature => s!"indirect invocation of {signature}"

end Fault

/-- Why an operation of the library fails. -/
inductive Error where
  /-- A fault of an instruction stream. -/
  | lowering (fault : Fault) (site : Site)
  /-- A method was to get a second body. -/
  | alreadyLowered (signature : String)
  | undefinedLabel (name : String)
  | duplicateLabel (name : String)
  | graph (fault : GraphFault)
  deriving Inhabited

namespace Error

/-- The wording of an error. -/
def message : Error → String
  | lowering fault site =>
    match fault.nature with
    | .structural => s!"Structural - {site.location} {site.instruction}: {fault.message}"
    | .invariant =>
      s!"Invariant violated - {fault.message} (at {site.location} {site.instruction})"
    | .unsupported => s!"Unsupported - {site.location} {site.instruction}: {fault.message}"
  | alreadyLowered signature => s!"Method {signature} already has a translated body"
  | undefinedLabel name => s!"Undefined label - {name}"
  | duplicateLabel name => s!"Duplicate label - {name}"
  | graph fault => fault.message

instance : ToString Error := ⟨message⟩

end Error

end GuardedFlow
