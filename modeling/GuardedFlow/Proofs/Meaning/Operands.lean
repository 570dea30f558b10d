import Mathlib.Control.Monad.Basic
import GuardedFlow.Proofs.Meaning.Basic
import GuardedFlow.Proofs.Lowering.Accesses

/-!
# The meaning of operands

Operand trees and assignments are evaluated directly, without statements and temporaries. An evaluation
reads the variables of a method from its scope and changes the globals as it goes. It has no value where
a declaration is missing, and where it meets an allocation: those are lowered with statements of their
own.
-/

namespace GuardedFlow

variable {U : Type}

/-- What the operands of a method refer to. -/
structure Scope (U : Type) where
  body : Body
  /-- The field that holds the type tag of every object. -/
  typeField : FieldSig
  /-- The length field of the arrays of an element type. -/
  lengthField : Ty → FieldSig
  /-- The values of the locals. -/
  slots : List U
  params : List U
  receiver : Option U
  /-- The exception that was caught. -/
  caught : Option U

/-- The scope of a lowering, with the values of its variables in a store. -/
def LoweringState.scope (s : LoweringState) (σ : Store U) : Scope U where
  body := s.draft.body
  typeField := s.program.typeField
  lengthField element := (s.program.arrayClass element).1.lengthField
  slots := s.draft.locals.toList.map (σ.locals ·.id)
  params := s.draft.params.toList.map (σ.locals ·.id)
  receiver := s.draft.receiver.map (σ.locals ·.id)
  caught := s.draft.exception.map (σ.locals ·.id)

/-- The element type of an operand whose type is an array. -/
def Body.elementType? (body : Body) (array : Value) : Option Ty :=
  match body.typeOf? array with
  | some (.array element) => some element
  | _ => none

/-- Evaluations change the globals, and some of them have no value. -/
abbrev Evaluation (U α : Type) := StateT (Globals U) Option α

namespace Evaluation

variable {α β : Type}

/-- What may be missing. -/
def lookup (a? : Option α) : Evaluation U α := fun globals => a?.map (·, globals)

/-- The value of a global. -/
def readGlobal (name : String) : Evaluation U U := fun globals => some (globals name, globals)

/-- Change a global. -/
def writeGlobal (name : String) (u : U) : Evaluation U Unit := fun globals =>
  some ((), Function.update globals name u)

/-- Evaluations one after another. -/
theorem bind_run (m : Evaluation U α) (f : α → Evaluation U β) (globals : Globals U) :
    (m >>= f) globals = (m globals).bind fun (a, globals) => f a globals := rfl

/-- An evaluation with a value, and then another one. -/
theorem bind_some {m : Evaluation U α} {f : α → Evaluation U β} {globals globals' : Globals U} {a : α}
    (h : m globals = some (a, globals')) : (m >>= f) globals = f a globals' := by
  rw [bind_run, h, Option.bind_some]

end Evaluation

namespace Meaning

open Evaluation

variable (M : Meaning U)

/-- The value of a cell of a heap map. -/
def readCell (map : String) (keys : List U) : Evaluation U U := do
  return M.select (← readGlobal map) keys

/-- Change a cell of a heap map. -/
def writeCell (map : String) (keys : List U) (u : U) : Evaluation U Unit := do
  writeGlobal map (M.update (← readGlobal map) keys u)

/-- The result of a call. -/
def invoke (signature : String) (args : List U) : Evaluation U U := fun globals =>
  some (M.call signature args globals)

mutual

/-- The value of an operand: left operands before right ones, arrays before indices, arguments before
the receiver that goes in front of them. -/
def eval (scope : Scope U) : Value → Evaluation U U
  | .slot index => lookup scope.slots[index]?
  | .const constant => return M.datum constant.denoted
  | .unary op v => return M.unary op (← eval scope v)
  | .binary op left right => do
    let left ← eval scope left
    let right ← eval scope right
    return M.binary op left right
  | .cast _ v => eval scope v
  | .instanceOf ty v => do
    let object ← eval scope v
    let tag ← M.readCell scope.typeField.mapName [object]
    return M.binary .subtype tag (M.datum (.type ty))
  | .length array => do
    let element ← lookup (scope.body.elementType? array)
    let base ← eval scope array
    M.readCell (scope.lengthField element).mapName [base]
  | .new _ | .newArray .. | .newMultiArray .. => failure
  | .field base field => do
    let base ← eval scope base
    M.readCell field.mapName [base]
  | .staticField field => readGlobal field.qualifiedName
  | .element base index => do
    let element ← lookup (scope.body.elementType? base)
    let array ← eval scope base
    let index ← eval scope index
    M.readCell element.mapName [array, index]
  | .call kind method base args => do
    let args ← evalAll scope args
    let receiver ← if kind = .static then pure none else eval? scope base
    if kind.hasReceiver && receiver.isNone then failure
    M.invoke method.text (receiver.toList ++ args)
  | .parameter index _ => lookup scope.params[index]?
  | .receiver _ => lookup scope.receiver
  | .caughtException _ => lookup scope.caught

/-- The values of the operands of a list, from left to right. -/
def evalAll (scope : Scope U) : List Value → Evaluation U (List U)
  | [] => return []
  | v :: rest => do
    let u ← eval scope v
    let us ← evalAll scope rest
    return u :: us

/-- The value of an operand that may be absent. -/
def eval? (scope : Scope U) : Option Value → Evaluation U (Option U)
  | none => return none
  | some v => return some (← eval scope v)

end

/-- Store a value in a heap location. -/
def store (scope : Scope U) (place : Value) (u : U) : Evaluation U Unit :=
  match place with
  | .field base field => do
    let base ← M.eval scope base
    M.writeCell field.mapName [base] u
  | .staticField field => writeGlobal field.qualifiedName u
  | .element base index => do
    let element ← lookup (scope.body.elementType? base)
    let array ← M.eval scope base
    let index ← M.eval scope index
    M.writeCell element.mapName [array, index] u
  | _ => failure

/-- The effect of an assignment: the value is evaluated, then the place, and then the value is
stored. -/
def assignment (place source : Value) (scope : Scope U) : Evaluation U (Scope U) := do
  let u ← M.eval scope source
  match place with
  | .slot index =>
    if index < scope.slots.length then return { scope with slots := scope.slots.set index u }
    else failure
  | _ =>
    M.store scope place u
    return scope

end Meaning

namespace Value

mutual

/-- Whether an operand contains no allocation and no call with an idiom. -/
def plain (idioms : List Idiom) : Value → Bool
  | .slot _ | .const _ | .staticField _ | .parameter .. | .receiver _ | .caughtException _ => true
  | .unary _ v | .cast _ v | .instanceOf _ v | .length v | .field v _ => v.plain idioms
  | .binary _ left right | .element left right => left.plain idioms && right.plain idioms
  | .new _ | .newArray .. | .newMultiArray .. => false
  | .call kind method base args =>
    (kind == .dynamic || (Idiom.lookup idioms ⟨method, true⟩).isNone) && plain? idioms base &&
      plainAll idioms args

/-- Whether all operands of a list are plain. -/
def plainAll (idioms : List Idiom) : List Value → Bool
  | [] => true
  | v :: rest => v.plain idioms && plainAll idioms rest

/-- Whether an operand is plain or absent. -/
def plain? (idioms : List Idiom) : Option Value → Bool
  | none => true
  | some v => v.plain idioms

end

end Value

end GuardedFlow
