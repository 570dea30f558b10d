import GuardedFlow.Proofs.Lowering.Requests
import GuardedFlow.Proofs.Program.Isolation

/-!
# The caches of a program

Methods, array classes and globals are created when they are first asked for. What one request or one
attachment of a body does to them is stated once, by `Program.Step.stays` and `Program.Step.keyed`: no
entry is replaced or gets another number, and every entry is kept under its own key. Everything that can
be done to a program is a sequence of such steps.
-/

namespace GuardedFlow

namespace Table

variable {κ α : Type} [BEq κ] {t u v : Table κ α} {key : κ} {value found : α} {id : Nat}

/-- Another table has the same values under the same keys and numbers, and maybe more. -/
structure Extends (t u : Table κ α) : Prop where
  find? : ∀ key id, t.find? key = some id → u.find? key = some id
  get? : ∀ id value, t.get? id = some value → u.get? id = some value

/-- A table extends itself. -/
theorem Extends.refl (t : Table κ α) : t.Extends t := ⟨fun _ _ h => h, fun _ _ h => h⟩

/-- Extensions follow one another. -/
theorem Extends.trans (htu : t.Extends u) (huv : u.Extends v) : t.Extends v where
  find? key id h := huv.find? key id (htu.find? key id h)
  get? id value h := huv.get? id value (htu.get? id value h)

/-- A value that is in the table after a request was there before, or it is the one that was added. -/
theorem get?_of_intern (h : (t.intern key value).2.get? id = some found) :
    t.get? id = some found ∨ t.find? key = none ∧ (t.intern key value).1 = id ∧ found = value := by
  cases hkey : t.find? key with
  | some known =>
    rw [intern_of_known value hkey] at h
    exact .inl h
  | none =>
    rw [intern_of_unknown value hkey] at h ⊢
    simp only [get?, Array.getElem?_push] at h
    split at h
    · rename_i hid
      cases h
      exact .inr ⟨rfl, hid.symm, rfl⟩
    · exact .inl h

/-- Every value is found under its own key. -/
def Keyed (keyOf : α → κ) (t : Table κ α) : Prop :=
  ∀ id value, t.get? id = some value → t.find? (keyOf value) = some id

/-- The empty table has its values under their keys. -/
theorem keyed_empty (keyOf : α → κ) : (Table.empty : Table κ α).Keyed keyOf := by
  intro id value h
  simp [Table.empty, get?] at h

/-- A value that keeps its key is still found under it. -/
theorem Keyed.modify {keyOf : α → κ} (h : t.Keyed keyOf) (f : α → α)
    (hf : ∀ value, keyOf (f value) = keyOf value) : (t.modify id f).Keyed keyOf := by
  intro other found hfound
  rw [get?_modify] at hfound
  obtain ⟨old, hold, rfl⟩ := Option.map_eq_some_iff.mp hfound
  have hkey : keyOf (if id = other then f old else old) = keyOf old := by split <;> simp [hf]
  rw [hkey, find?_modify]
  exact h other old hold

variable [LawfulBEq κ]

/-- A table with one more entry extends the one before. -/
theorem extends_intern (t : Table κ α) (key : κ) (value : α) : t.Extends (t.intern key value).2 where
  find? other id h := by rw [find?_intern, h, Option.some_or]
  get? id found h := get?_intern h key value

/-- A value that is added under its own key is found there. -/
theorem Keyed.intern {keyOf : α → κ} (h : t.Keyed keyOf) (hkey : keyOf value = key) :
    (t.intern key value).2.Keyed keyOf := by
  intro id found hfound
  rcases get?_of_intern hfound with hold | ⟨-, rfl, rfl⟩
  · exact (t.extends_intern key value).find? _ _ (h id found hold)
  · rw [hkey]
    exact find?_intern_self t key found

end Table

namespace Program

/-- What stays of a program, its array classes included. -/
structure Stays (p q : Program) : Prop extends Grows p q where
  arrayClasses : p.arrayClasses.Extends q.arrayClasses

/-- A program stays as it is. -/
theorem Stays.refl (p : Program) : p.Stays p := ⟨.refl p, .refl _⟩

/-- What stays, stays later on. -/
theorem Stays.trans {p q r : Program} (hpq : p.Stays q) (hqr : q.Stays r) : p.Stays r :=
  ⟨hpq.toGrows.trans hqr.toGrows, hpq.arrayClasses.trans hqr.arrayClasses⟩

/-- Everything that a program keeps is kept under its own key: methods under their signature, array
classes under their element type, globals under their name. -/
structure Keyed (p : Program) : Prop where
  methods : p.methods.Keyed Method.signature
  arrayClasses : p.arrayClasses.Keyed ArrayClass.element
  globals : p.Named

/-- The program of which nothing was asked keeps nothing under a wrong key. -/
theorem keyed_new (config : Config) : (Program.new config).Keyed :=
  ⟨Table.keyed_empty _, Table.keyed_empty _, named_new config⟩

/-- One change of a program: a request, or the attachment of a body to a method. -/
inductive Step (p q : Program) : Prop
  | request (h : Request p q)
  | install {id : Nat} {flow : Flow} (h : p.install id flow = .ok q)

/-- The effect of a request for a global. -/
theorem stateAfter_global (p : Program) (name : String) (ty : Ty) :
    stateAfter (Session.global name ty p) = p ∨
      ∃ globals supply, stateAfter (Session.global name ty p) = { p with globals, supply } := by
  rw [Session.global_eq]
  cases p.globals.lookup name with
  | none => exact .inr ⟨_, _, rfl⟩
  | some v =>
    left
    by_cases hty : v.ty = ty <;> simp only [hty, if_true, if_false] <;> rfl

/-- The effect of the attachment of a body. -/
theorem eq_of_install {p q : Program} {id : Nat} {flow : Flow} (h : p.install id flow = .ok q) :
    q = p ∨ q = { p with methods := p.methods.modify id ({ · with flow := some flow }) } := by
  unfold install at h
  split at h
  · split at h
    · cases h
    · cases h
      exact .inr rfl
  · cases h
    exact .inl rfl

namespace Step

variable {p q : Program}

/-- One change leaves everything that a program has as it is, but for a body that a method gets. -/
theorem stays (h : p.Step q) : p.Stays q := by
  cases h with
  | install h =>
    refine ⟨grows_install h, ?_⟩
    rcases eq_of_install h with rfl | rfl <;> exact .refl _
  | request h =>
    cases h with
    | resolve sig => exact ⟨p.grows_resolve sig, .refl _⟩
    | arrayClass element => exact ⟨p.grows_arrayClass element, p.arrayClasses.extends_intern _ _⟩
    | mint supply h => exact ⟨.of_supply p p.log supply h, .refl _⟩
    | report d => exact ⟨p.grows_report d, .refl _⟩
    | global name ty =>
      refine ⟨?_, ?_⟩
      · have hgrows := Session.growing_global name ty p
        cases hrun : Session.global name ty p <;> rw [hrun] at hgrows <;> exact hgrows
      · rcases p.stateAfter_global name ty with h | ⟨globals, supply, h⟩ <;> rw [h] <;> exact .refl _

/-- One change puts nothing under a wrong key. -/
theorem keyed (h : p.Step q) (hp : p.Keyed) : q.Keyed := by
  have hnamed : q.Named := h.stays.toGrows.named hp.globals
  cases h with
  | install h =>
    refine ⟨?_, ?_, hnamed⟩
    · rcases eq_of_install h with rfl | rfl
      · exact hp.methods
      · exact hp.methods.modify _ fun _ => rfl
    · rcases eq_of_install h with rfl | rfl <;> exact hp.arrayClasses
  | request h =>
    cases h with
    | resolve sig => exact ⟨hp.methods.intern rfl, hp.arrayClasses, hnamed⟩
    | arrayClass element => exact ⟨hp.methods, hp.arrayClasses.intern rfl, hnamed⟩
    | mint supply h => exact ⟨hp.methods, hp.arrayClasses, hnamed⟩
    | report d => exact ⟨hp.methods, hp.arrayClasses, hnamed⟩
    | global name ty =>
      rcases p.stateAfter_global name ty with h | ⟨globals, supply, h⟩ <;> rw [h] at hnamed ⊢ <;>
        exact ⟨hp.methods, hp.arrayClasses, hnamed⟩

end Step

/-- Any number of changes. -/
abbrev Steps : Program → Program → Prop := Relation.ReflTransGen Step

namespace Steps

variable {p q : Program}

/-- What requests do not change stays. -/
theorem stays (h : p.Steps q) : p.Stays q := by
  induction h with
  | refl => exact .refl p
  | tail _ hstep ih => exact ih.trans hstep.stays

/-- Requests keep values under their keys. -/
theorem keyed (h : p.Steps q) (hp : p.Keyed) : q.Keyed := by
  induction h with
  | refl => exact hp
  | tail _ hstep ih => exact hstep.keyed ih

/-- Requests change a program step by step. -/
theorem of_requests {α : Type} {m : Session α} (h : Requests id m) (p : Program) :
    p.Steps (stateAfter (m p)) :=
  Relation.ReflTransGen.mono (p := Step) (fun _ _ => Step.request) _ _ (h.steps p)

end Steps

end Program

namespace Session

/-- Lowering a body into its method changes the program step by step, also if it fails. -/
theorem steps_lower (body : Body) (oracle : PredecessorOracle) (p : Program) :
    p.Steps (stateAfter (lower body oracle p)) := by
  have hresolve : p.Steps (p.resolve body.method).2 := .single (.request (.resolve p _))
  have hflow := Program.Steps.of_requests (flowOf_requests body oracle) (p.resolve body.method).2
  rw [lower_run]
  cases hrun : flowOf body oracle (p.resolve body.method).2 with
  | error e q =>
    rw [hrun] at hflow
    exact hresolve.trans hflow
  | ok flow q =>
    rw [hrun] at hflow
    dsimp only
    cases hinstall : q.install (p.resolve body.method).1 flow with
    | error e => exact hresolve.trans hflow
    | ok r => exact (hresolve.trans hflow).tail (.install hinstall)

/-- A slot of a batch makes requests only. -/
theorem steps_slot (body : Body) (p : Program) : p.Steps (slot body p).2 := by
  have hlower := steps_lower body body.predecessorOracle p
  unfold slot lowerByTransfers
  cases hrun : lower body body.predecessorOracle p with
  | ok id q =>
    rw [hrun] at hlower
    exact hlower
  | error e q =>
    rw [hrun] at hlower
    exact hlower.tail (.request (.report q _))

end Session

end GuardedFlow
