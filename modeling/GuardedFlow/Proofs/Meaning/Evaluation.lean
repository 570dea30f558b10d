import GuardedFlow.Proofs.Lowering.PathEnds
import GuardedFlow.Proofs.Meaning.Operands

/-!
# The meaning of all operands

`Meaning.eval` leaves out allocations and calls with an idiom. Here all operands are evaluated. An
allocation has the value of a fresh reference; its sizes are not evaluated as part of an operand. A call
with an idiom has the value that the idiom computes, and none where the idiom ends the path or has no
result.
-/

namespace GuardedFlow

variable {U : Type}

/-- The length field of strings. -/
def Config.stringLengthField (config : Config) : FieldSig :=
  ⟨config.stringClass, config.lengthFieldName, .int⟩

namespace Meaning

open Evaluation

/-- The values of arguments, and then of a receiver that goes in front of them. -/
def arguments (base : Option (Evaluation U U)) (args : List (Evaluation U U)) :
    Evaluation U (List U) := do
  let args ← args.mapM id
  match base with
  | some base => return (← base) :: args
  | none => return args

/-- The value of the receiver of a call, which has to have one. -/
def receiver (call : Call (Evaluation U U)) : Evaluation U U := call.base.getD failure

/-- The value of the only argument of a call. -/
def onlyArgument (call : Call (Evaluation U U)) : Evaluation U U :=
  match call.args with
  | [arg] => arg
  | _ => failure

variable (M : Meaning U) (config : Config)

/-- The result of a call with an idiom. -/
def idiom (typeField : FieldSig) (kind : IdiomKind) (call : Call (Evaluation U U)) : Evaluation U U :=
  match kind with
  | .assertion | .precondition | .exit | .testFailure => failure
  | .stringLength => do
    let base ← receiver call
    M.readCell config.stringLengthField.mapName [base]
  | .isAssignableFrom => do
    let base ← receiver call
    let arg ← onlyArgument call
    return M.binary .subtype arg base
  | .getClass => do
    let base ← receiver call
    M.readCell typeField.mapName [base]
  | .cast => do
    let _ ← receiver call
    onlyArgument call
  | .isInstance => do
    let base ← receiver call
    let arg ← onlyArgument call
    let tag ← M.readCell typeField.mapName [arg]
    return M.binary .subtype tag base

/-- The result of a call whose operands are evaluated as given. -/
def callResult (typeField : FieldSig) (call : Call (Evaluation U U)) : Evaluation U U :=
  if call.kind = .dynamic then
    arguments call.base call.args >>= M.invoke call.method.text
  else
    match Idiom.lookup (Idiom.table config) ⟨call.method, true⟩ with
    | some kind => M.idiom config typeField kind call
    | none =>
      arguments (if call.kind.hasReceiver then some (receiver call) else none) call.args >>=
        M.invoke call.method.text

mutual

/-- The value of an operand. -/
def evaluate (scope : Scope U) : Value → Evaluation U U
  | .slot index => lookup scope.slots[index]?
  | .const constant => return M.datum constant.denoted
  | .unary op v => return M.unary op (← evaluate scope v)
  | .binary op left right => do
    let left ← evaluate scope left
    let right ← evaluate scope right
    return M.binary op left right
  | .cast _ v => evaluate scope v
  | .instanceOf ty v => do
    let object ← evaluate scope v
    let tag ← M.readCell scope.typeField.mapName [object]
    return M.binary .subtype tag (M.datum (.type ty))
  | .length array => do
    let element ← lookup (scope.body.elementType? array)
    let base ← evaluate scope array
    M.readCell (scope.lengthField element).mapName [base]
  | .new ty | .newMultiArray ty _ => return M.alloc ty
  | .newArray element _ => return M.alloc (.array element)
  | .field base field => do
    let base ← evaluate scope base
    M.readCell field.mapName [base]
  | .staticField field => readGlobal field.qualifiedName
  | .element base index => do
    let element ← lookup (scope.body.elementType? base)
    let array ← evaluate scope base
    let index ← evaluate scope index
    M.readCell element.mapName [array, index]
  | .call kind method base args =>
    M.callResult config scope.typeField ⟨kind, method, evaluate? scope base, evaluateAll scope args⟩
  | .parameter index _ => lookup scope.params[index]?
  | .receiver _ => lookup scope.receiver
  | .caughtException _ => lookup scope.caught

/-- The evaluations of the operands of a list. -/
def evaluateAll (scope : Scope U) : List Value → List (Evaluation U U)
  | [] => []
  | v :: rest => evaluate scope v :: evaluateAll scope rest

/-- The evaluation of an operand that may be absent. -/
def evaluate? (scope : Scope U) : Option Value → Option (Evaluation U U)
  | none => none
  | some v => some (evaluate scope v)

end

/-- A call with the evaluations of its operands. -/
def prepare (scope : Scope U) (source : Call Value) : Call (Evaluation U U) :=
  ⟨source.kind, source.method, M.evaluate? config scope source.base,
    M.evaluateAll config scope source.args⟩

variable {M config}

/-- A call without an idiom invokes its method. -/
theorem callResult_plain {call : Call (Evaluation U U)} (typeField : FieldSig)
    (hplain : call.kind = .dynamic ∨ Idiom.lookup (Idiom.table config) ⟨call.method, true⟩ = none) :
    M.callResult config typeField call =
      arguments (if call.kind = .dynamic then call.base
        else if call.kind.hasReceiver then some (receiver call) else none) call.args >>=
          M.invoke call.method.text := by
  unfold callResult
  by_cases hdynamic : call.kind = .dynamic
  · simp only [hdynamic, if_true]
  · rw [if_neg hdynamic, if_neg hdynamic, hplain.resolve_left hdynamic]

mutual

/-- Plain operands have the values that `eval` gives them. -/
theorem evaluate_plain (scope : Scope U) : ∀ v : Value, v.plain (Idiom.table config) →
    M.evaluate config scope v = M.eval scope v
  | .slot _, _ | .const _, _ | .staticField _, _ | .parameter .., _ | .receiver _, _
  | .caughtException _, _ => rfl
  | .unary op v, hv => by
    rw [evaluate, eval, evaluate_plain scope v hv]
  | .binary op v w, hv => by
    obtain ⟨hv, hw⟩ := Bool.and_eq_true_iff.mp hv
    rw [evaluate, eval, evaluate_plain scope v hv, evaluate_plain scope w hw]
  | .cast _ v, hv => evaluate_plain scope v hv
  | .instanceOf ty v, hv => by rw [evaluate, eval, evaluate_plain scope v hv]
  | .length v, hv => by rw [evaluate, eval, evaluate_plain scope v hv]
  | .field v field, hv => by rw [evaluate, eval, evaluate_plain scope v hv]
  | .element v w, hv => by
    obtain ⟨hv, hw⟩ := Bool.and_eq_true_iff.mp hv
    rw [evaluate, eval, evaluate_plain scope v hv, evaluate_plain scope w hw]
  | .call kind method base args, hv => by
    simp only [Value.plain, Bool.and_eq_true, Bool.or_eq_true, beq_iff_eq, Option.isNone_iff_eq_none] at hv
    obtain ⟨⟨hplain, hbase⟩, hargs⟩ := hv
    have hall := evaluateAll_plain scope args hargs
    have hreceiver := evaluate?_plain scope base hbase
    rw [evaluate, eval, callResult_plain _ hplain, ← hall, ← hreceiver]
    cases kind <;> cases base <;>
      simp [arguments, receiver, evaluate?, CallKind.hasReceiver]

/-- Plain operands of a list have the same values, one by one. -/
theorem evaluateAll_plain (scope : Scope U) : ∀ vs : List Value, Value.plainAll (Idiom.table config) vs →
    (M.evaluateAll config scope vs).mapM id = M.evalAll scope vs
  | [], _ => rfl
  | v :: vs, hv => by
    obtain ⟨hv, hvs⟩ := Bool.and_eq_true_iff.mp hv
    rw [evaluateAll, evalAll, List.mapM_cons, evaluateAll_plain scope vs hvs, id_eq,
      evaluate_plain scope v hv]

/-- A plain operand that may be absent has the same value. -/
theorem evaluate?_plain (scope : Scope U) : ∀ v : Option Value, Value.plain? (Idiom.table config) v →
    ((M.evaluate? config scope v).elim (pure none) fun m => do return some (← m)) = M.eval? scope v
  | none, _ => rfl
  | some v, hv => by
    rw [evaluate?, eval?, Option.elim_some, evaluate_plain scope v hv]

end

end Meaning

namespace Value

variable {idioms : List Idiom}

/-- No operand of a list ends the path if they do not all together. -/
theorem pathEnds_none {vs : List Value} (h : (pathEnds idioms vs).foldr Option.or none = none) :
    ∀ v ∈ vs, v.pathEnd idioms = none := by
  induction vs with
  | nil => simp
  | cons v rest ih =>
    obtain ⟨hv, hrest⟩ := Option.or_eq_none_iff.mp h
    exact List.forall_mem_cons.mpr ⟨hv, ih hrest⟩

/-- If an operand that may be absent does not end the path, it does not where it is present. -/
theorem pathEnd?_none {v? : Option Value} (h : (pathEnd? idioms v?).join = none) :
    ∀ v ∈ v?, v.pathEnd idioms = none := by
  rintro v rfl
  exact h

mutual

/-- Plain operands do not end the path. -/
theorem pathEnd_plain : ∀ v : Value, v.plain idioms → v.pathEnd idioms = none
  | .slot _, _ | .const _, _ | .staticField _, _ | .parameter .., _ | .receiver _, _
  | .caughtException _, _ => rfl
  | .unary _ v, hv | .cast _ v, hv | .instanceOf _ v, hv | .length v, hv | .field v _, hv =>
    pathEnd_plain v hv
  | .binary _ v w, hv | .element v w, hv => by
    obtain ⟨hv, hw⟩ := Bool.and_eq_true_iff.mp hv
    exact Option.or_eq_none_iff.mpr ⟨pathEnd_plain v hv, pathEnd_plain w hw⟩
  | .call kind method base args, hv => by
    simp only [plain, Bool.and_eq_true, Bool.or_eq_true, beq_iff_eq, Option.isNone_iff_eq_none] at hv
    obtain ⟨⟨hplain, hbase⟩, hargs⟩ := hv
    have hends := pathEnds_plain args hargs
    have hend := pathEnd?_plain base hbase
    rw [pathEnd, Call.pathEnd]
    rcases hplain with rfl | hidiom
    · simp [hends, hend]
    · simp [hends, hend, hidiom]

/-- Plain operands do not end the path. -/
theorem pathEnds_plain : ∀ vs : List Value, plainAll idioms vs →
    (pathEnds idioms vs).foldr Option.or none = none
  | [], _ => rfl
  | v :: rest, hv => by
    obtain ⟨hv, hrest⟩ := Bool.and_eq_true_iff.mp hv
    exact Option.or_eq_none_iff.mpr ⟨pathEnd_plain v hv, pathEnds_plain rest hrest⟩

/-- A plain operand that may be absent does not end the path. -/
theorem pathEnd?_plain : ∀ v? : Option Value, plain? idioms v? → (pathEnd? idioms v?).join = none
  | none, _ => rfl
  | some v, hv => pathEnd_plain v hv

end

end Value

end GuardedFlow
