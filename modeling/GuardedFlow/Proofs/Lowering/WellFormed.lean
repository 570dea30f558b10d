import GuardedFlow.Proofs.Lowering.Failures
import GuardedFlow.Proofs.Lowering.NormalForm

/-!
# Well-formed bodies

What a body has to satisfy so that no check of the lowering refuses it. All conditions are about the
instructions as they are written, together with the configuration and the globals of the program that
the body is lowered in. They range over the operands of an instruction at any depth, those included that
lowering does not evaluate.
-/

namespace GuardedFlow

namespace Value

mutual

/-- The operands in an operand, at any depth. -/
def inner : Value → List Value
  | slot _ | const _ | new _ | staticField _ | parameter .. | receiver _ | caughtException _ => []
  | unary _ v | cast _ v | instanceOf _ v | length v | field v _ | newArray _ v => v :: v.inner
  | binary _ v w | element v w => v :: v.inner ++ w :: w.inner
  | newMultiArray _ sizes => innerOf sizes
  | call _ _ base args => inner? base ++ innerOf args

/-- The operands of a list and those in them. -/
def innerOf : List Value → List Value
  | [] => []
  | v :: rest => v :: v.inner ++ innerOf rest

/-- An operand that may be absent and those in it. -/
def inner? : Option Value → List Value
  | none => []
  | some v => v :: v.inner

end

/-- An operand and those in it. -/
def parts (v : Value) : List Value := v :: v.inner

end Value

/-- The operands of an operation, at any depth. -/
def Op.operands {τ : Type} : Op τ → List Value
  | assign place source => place.parts ++ source.parts
  | identity slot v => .slot slot :: v.parts
  | branch v _ | ret v | monitorEnter v | monitorExit v | throw v => v.parts
  | invoke call => Value.inner? call.base ++ Value.innerOf call.args
  | tableSwitch key .. | lookupSwitch key .. => key.parts
  | subroutineReturn slot => [.slot slot]
  | goto _ | retVoid | nop | breakpoint => []

/-- A call has the receiver that its kind asks for, and it is not an indirect call where those are
refused. -/
structure Call.WellFormed (p : Program) (call : Call Value) : Prop where
  receiver : call.kind.hasReceiver = true → call.base.isSome = true
  indirect : call.kind = .dynamic → p.config.strictUnsupported = false

/-- What an operand refers to is declared, and what it takes an element or the length of has the type of
an array. This is about the operand alone, not about those in it. -/
def Value.WellFormed (p : Program) (body : Body) : Value → Prop
  | .slot index => index < body.locals.size
  | .parameter index _ => index < body.method.params.length
  | .receiver _ => body.isStatic = false
  | .element array _ | .length array => (body.elementType? array).isSome = true
  | .call kind method base args => Call.WellFormed p ⟨kind, method, base, args⟩
  | _ => True

/-- Whether an operand can stand on the left of an assignment. -/
def Value.isPlace : Value → Bool
  | .slot _ => true
  | v => v.isHeapLocation

/-- The form of an operation is one that lowering knows. This is about the operation alone, not about its
operands and jump targets. -/
def Op.Permitted (p : Program) (body : Body) : Op Nat → Prop
  | .assign place source =>
    place.isPlace = true ∧ ¬ (place.isHeapLocation = true ∧ source.isHeapLocation = true)
  | .ret _ => body.method.result.isVoid = false
  | .invoke call => call.WellFormed p
  | .tableSwitch .. | .lookupSwitch .. | .subroutineReturn _ | .throw _ => False
  | _ => True

/-- No check refuses an operation. -/
structure Op.WellFormed (p : Program) (body : Body) (op : Op Nat) : Prop where
  permitted : op.Permitted p body
  targets : ∀ target ∈ op.jumpTargets, target < body.code.size
  operands : ∀ v ∈ op.operands, v.WellFormed p body
  /-- No call is matched. -/
  idioms : ∀ site ∈ op.callSites, Idiom.lookup p.idioms site = none

/-- The regions of the heap that the instructions of a body access. -/
def Body.regions (p : Program) (body : Body) : List Region :=
  body.code.toList.flatMap fun instr => (instr.op.accesses p body).map Access.region

/-- Regions that have the same name are of the same type, and of the type of the global that the program
has under that name. -/
structure Program.Allows (p : Program) (regions : List Region) : Prop where
  among : ∀ region ∈ regions, ∀ other ∈ regions, region.name = other.name → region.ty = other.ty
  known : ∀ region ∈ regions, ∀ v ∈ p.globals.lookup region.name, v.ty = region.ty

/-- No check refuses an instruction of a body, and neither is a global refused that they ask for. -/
structure Body.WellFormed (p : Program) (body : Body) : Prop where
  ops : ∀ instr ∈ body.code.toList, instr.op.WellFormed p body
  globals : p.Allows (body.regions p)

section Decidable

variable (p : Program) (body : Body)

instance (call : Call Value) : Decidable (call.WellFormed p) :=
  decidable_of_iff (_ ∧ _) ⟨fun ⟨h, h'⟩ => ⟨h, h'⟩, fun h => ⟨h.receiver, h.indirect⟩⟩

instance : (v : Value) → Decidable (v.WellFormed p body)
  | .slot _ | .parameter .. => inferInstanceAs (Decidable (_ < _))
  | .receiver _ | .element .. | .length _ => inferInstanceAs (Decidable (_ = _))
  | .call kind method base args =>
    inferInstanceAs (Decidable (Call.WellFormed p ⟨kind, method, base, args⟩))
  | .const _ | .unary .. | .binary .. | .cast .. | .instanceOf .. | .new _ | .newArray ..
  | .newMultiArray .. | .field .. | .staticField _ | .caughtException _ => .isTrue trivial

instance : (op : Op Nat) → Decidable (op.Permitted p body)
  | .assign .. => inferInstanceAs (Decidable (_ ∧ ¬ (_ ∧ _)))
  | .ret _ => inferInstanceAs (Decidable (_ = _))
  | .invoke call => inferInstanceAs (Decidable (call.WellFormed p))
  | .tableSwitch .. | .lookupSwitch .. | .subroutineReturn _ | .throw _ => .isFalse id
  | .identity .. | .goto _ | .branch .. | .retVoid | .monitorEnter _ | .monitorExit _ | .nop
  | .breakpoint => .isTrue trivial

instance (op : Op Nat) : Decidable (op.WellFormed p body) :=
  decidable_of_iff (_ ∧ _ ∧ _ ∧ _) ⟨fun ⟨h, h', h'', h'''⟩ => ⟨h, h', h'', h'''⟩,
    fun h => ⟨h.permitted, h.targets, h.operands, h.idioms⟩⟩

instance (regions : List Region) : Decidable (p.Allows regions) :=
  decidable_of_iff (_ ∧ _) ⟨fun ⟨h, h'⟩ => ⟨h, h'⟩, fun h => ⟨h.among, h.known⟩⟩

instance : Decidable (body.WellFormed p) :=
  decidable_of_iff (_ ∧ _) ⟨fun ⟨h, h'⟩ => ⟨h, h'⟩, fun h => ⟨h.ops, h.globals⟩⟩

end Decidable

end GuardedFlow
