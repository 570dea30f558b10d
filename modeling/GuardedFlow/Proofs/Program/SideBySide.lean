import GuardedFlow.Proofs.Flow.Numbers
import GuardedFlow.Proofs.Program.Growth

/-!
# Two programs side by side

The same requests are made to two programs of one configuration. As long as every global that both of
them have has one type, they answer alike, up to numbers. A global that only one of them has makes the
difference: a request for it under another type fails there, while the other program adds it. `Runs`
relates the ends of two runs: they end alike, or one of them fails by such a clash.
-/

namespace GuardedFlow

/-- What may differ between two programs side by side. -/
structure Sides where
  /-- The names of globals that only the left program may have. -/
  left : String → Prop
  /-- The names of globals that only the right program may have. -/
  right : String → Prop
  /-- What the numbers of variables on the left are compared by. -/
  number : Var → Nat
  /-- What the numbers of variables on the right are compared by. -/
  number' : Var → Nat
  alike : NumberAlike number number'
  /-- Every variable on the left has a counterpart on the right. -/
  total : ∀ v, ∃ w, Var.renumber number v = Var.renumber number' w
  /-- Every variable on the right has a counterpart on the left. -/
  onto : ∀ w, ∃ v, Var.renumber number v = Var.renumber number' w

namespace Sides

/-- The sides exchanged. -/
def swap (sides : Sides) : Sides where
  left := sides.right
  right := sides.left
  number := sides.number'
  number' := sides.number
  alike v w hv hw := (sides.alike w v hw hv).symm
  total w := (sides.onto w).imp fun _ h => h.symm
  onto v := (sides.total v).imp fun _ h => h.symm

/-- Each of the programs may have the same names alone, and numbers do not matter. -/
def both (odd : String → Prop) : Sides where
  left := odd
  right := odd
  number _ := 0
  number' _ := 0
  alike _ _ _ _ := rfl
  total v := ⟨v, rfl⟩
  onto v := ⟨v, rfl⟩

end Sides

/-- What a name stands for in two programs. -/
inductive SameGlobal (sides : Sides) (name : String) : Option Var → Option Var → Prop where
  | neither : SameGlobal sides name none none
  | both {v w : Var} (h : v.renumber sides.number = w.renumber sides.number') :
    SameGlobal sides name (some v) (some w)
  | left {v : Var} (hodd : sides.left name) (hv : v.name = name ∧ v.role = .global) :
    SameGlobal sides name (some v) none
  | right {v : Var} (hodd : sides.right name) (hv : v.name = name ∧ v.role = .global) :
    SameGlobal sides name none (some v)

/-- A global that is the same on both sides is so with the sides swapped. -/
theorem SameGlobal.symm {sides : Sides} {name : String} {v w : Option Var}
    (h : SameGlobal sides name v w) : SameGlobal sides.swap name w v := by
  cases h with
  | neither => exact .neither
  | both h => exact .both h.symm
  | left hodd hv => exact .right hodd hv
  | right hodd hv => exact .left hodd hv

namespace Program

/-- Two programs that answer alike, but for requests for globals that only one of them has. -/
structure Akin (sides : Sides) (p q : Program) : Prop where
  config : p.config = q.config
  arrays : ∀ element, (p.arrayClass element).1 = (q.arrayClass element).1
  globals : ∀ name, SameGlobal sides name (p.globals.lookup name) (q.globals.lookup name)

/-- The type under which a program has a global. -/
def globalTy (p : Program) (name : String) : Option Ty := (p.globals.lookup name).map Var.ty

/-- An odd name stands for globals of different types in two programs. -/
structure Clash (odd : String → Prop) (p q : Program) (name : String) (ty ty' : Ty) : Prop where
  odd : odd name
  left : p.globalTy name = some ty
  right : q.globalTy name = some ty'
  differ : ty ≠ ty'

variable {odd : String → Prop} {sides : Sides} {p q r : Program}

/-- A global keeps its type. -/
theorem Grows.globalTy (h : p.Grows q) {name : String} {ty : Ty} (hty : p.globalTy name = some ty) :
    q.globalTy name = some ty := by
  obtain ⟨v, hv, rfl⟩ := Option.map_eq_some_iff.mp hty
  exact Option.map_eq_some_iff.mpr ⟨v, h.globals name v hv, rfl⟩

/-- A clash stays a clash. -/
theorem Clash.grow {name : String} {ty ty' : Ty} {p' q' : Program} (h : Clash odd p q name ty ty')
    (hp : p.Grows p') (hq : q.Grows q') : Clash odd p' q' name ty ty' :=
  ⟨h.odd, hp.globalTy h.left, hq.globalTy h.right, h.differ⟩

/-- A clash of types is one with the sides swapped. -/
theorem Clash.symm {name : String} {ty ty' : Ty} (h : Clash odd p q name ty ty') :
    Clash odd q p name ty' ty :=
  ⟨h.odd, h.right, h.left, h.differ.symm⟩

namespace Akin

/-- Programs that are akin are so with the sides swapped. -/
theorem symm (h : Akin sides p q) : Akin sides.swap q p where
  config := h.config.symm
  arrays element := (h.arrays element).symm
  globals name := (h.globals name).symm

/-- A global that both programs have has one type. -/
theorem globalTy (h : Akin sides p q) {name : String} {ty ty' : Ty} (hp : p.globalTy name = some ty)
    (hq : q.globalTy name = some ty') : ty = ty' := by
  obtain ⟨v, hv, rfl⟩ := Option.map_eq_some_iff.mp hp
  obtain ⟨w, hw, rfl⟩ := Option.map_eq_some_iff.mp hq
  have hglobal := h.globals name
  rw [hv, hw] at hglobal
  cases hglobal with
  | both h => exact Var.ty_of_renumber h

/-- A program that has grown is akin to what it was, if the names of the added globals are odd. -/
theorem of_grows (h : p.Grows q) (hodd : ∀ name, q.globalTy name ≠ none → odd name) :
    Akin (.both odd) q p where
  config := h.config
  arrays := h.arrays
  globals name := by
    cases hp : p.globals.lookup name with
    | some v =>
      rw [h.globals name v hp]
      exact .both rfl
    | none =>
      cases hq : q.globals.lookup name with
      | none => exact .neither
      | some v =>
        rcases h.added name v hq with hold | hv
        · cases hp.symm.trans hold
        · exact .left (hodd name (by simp [Program.globalTy, hq])) hv

/-- What changes neither configuration nor array classes nor globals does not matter. -/
theorem congr {p' q' : Program} (h : Akin sides p q) (hp : p.Grows p') (hp' : p'.globals = p.globals)
    (hq : q.Grows q') (hq' : q'.globals = q.globals) : Akin sides p' q' where
  config := by rw [hp.config, hq.config, h.config]
  arrays element := by rw [hp.arrays, hq.arrays, h.arrays]
  globals name := by
    rw [hp', hq']
    exact h.globals name

end Akin

end Program

/-- Answers without variables are compared as they are. -/
abbrev asIs {α : Type} (_ : Var → Nat) (a : α) : α := a

/-- Every answer on one side has a counterpart on the other, as `view` compares them. -/
class Counterparts {α γ : Type} (sides : Sides) (view : (Var → Nat) → α → γ) : Prop where
  left : ∀ a, ∃ b, view sides.number a = view sides.number' b
  right : ∀ b, ∃ a, view sides.number a = view sides.number' b

namespace Counterparts

variable {α β γ δ : Type} (sides : Sides) {view : (Var → Nat) → α → γ}

/-- What is compared without regard to numbers is its own counterpart. -/
instance constant (view : α → γ) : Counterparts sides fun _ => view :=
  ⟨fun a => ⟨a, rfl⟩, fun b => ⟨b, rfl⟩⟩

/-- What does not contain variables is its own counterpart. -/
instance asIs : Counterparts sides (asIs : (Var → Nat) → α → α) := constant sides id

/-- Variables have counterparts. -/
instance var : Counterparts sides Var.renumber := ⟨sides.total, sides.onto⟩

end Counterparts

/-- The ends of two runs. They answer or fail alike, or the run on one side fails because it requests a
global under the type that it has on the other side. -/
inductive Runs (sides : Sides) {σ α γ : Type} (program : σ → Program) (akin : σ → σ → Prop)
    (view : (Var → Nat) → α → γ) :
    EStateM.Result Error σ α → EStateM.Result Error σ α → Prop where
  | answers {a b : α} {s t : σ} (hview : view sides.number a = view sides.number' b) (h : akin s t) :
    Runs sides program akin view (.ok a s) (.ok b t)
  | fails {e : Error} {s t : σ} (h : akin s t) : Runs sides program akin view (.error e s) (.error e t)
  | left {name : String} {ty ty' : Ty} {s : σ} {r : EStateM.Result Error σ α}
      (h : Program.Clash sides.left (program s) (program (stateAfter r)) name ty' ty) :
    Runs sides program akin view (.error (.lowering (.globalConflict name ty ty') .outside) s) r
  | right {name : String} {ty ty' : Ty} {t : σ} {r : EStateM.Result Error σ α}
      (h : Program.Clash sides.right (program (stateAfter r)) (program t) name ty ty') :
    Runs sides program akin view r (.error (.lowering (.globalConflict name ty ty') .outside) t)

/-- The sides of two runs may be exchanged. -/
theorem Runs.symm {sides : Sides} {σ α γ : Type} {program : σ → Program} {akin akin' : σ → σ → Prop}
    {view : (Var → Nat) → α → γ} {r r' : EStateM.Result Error σ α} (hakin : ∀ s t, akin s t → akin' t s)
    (h : Runs sides program akin view r r') : Runs sides.swap program akin' view r' r := by
  cases h with
  | answers hview h => exact .answers hview.symm (hakin _ _ h)
  | fails h => exact .fails (hakin _ _ h)
  | left h => exact .right h.symm
  | right h => exact .left h.symm

namespace Session

/-- The ends of two sessions that started from akin programs. -/
abbrev Runs {α γ : Type} (sides : Sides) (view : (Var → Nat) → α → γ) :
    EStateM.Result Error Program α → EStateM.Result Error Program α → Prop :=
  GuardedFlow.Runs sides id (Program.Akin sides) view

variable {sides : Sides} {p q : Program}

/-- A global that only one of two akin programs has: it is the one that the other program adds, or the
request for it clashes. -/
theorem global_left (h : p.Akin sides q) {name : String} {v : Var} (hp : p.globals.lookup name = some v)
    (hq : q.globals.lookup name = none) (hodd : sides.left name) (hv : v.name = name ∧ v.role = .global)
    (ty : Ty) : Runs sides Var.renumber (global name ty p) (global name ty q) := by
  rw [global_eq, global_eq, hp, hq]
  have hadded : (q.globals.intern name ⟨q.supply.next, name, ty, .global⟩).2.lookup name =
      some ⟨q.supply.next, name, ty, .global⟩ := by
    simp [Table.lookup_intern, hq]
  by_cases hty : v.ty = ty
  · have hsame : v.renumber sides.number =
        Var.renumber sides.number' ⟨q.supply.next, name, ty, .global⟩ := by
      obtain ⟨id, _, _, _⟩ := v
      obtain ⟨rfl, rfl⟩ := hv
      subst hty
      exact sides.alike.renumber _ _ _ _ (by simp)
    simp only [hty, if_true]
    refine .answers hsame ⟨h.config, h.arrays, fun other => ?_⟩
    by_cases hother : name = other
    · subst hother
      rw [hp, hadded]
      exact .both hsame
    · have hglobal := h.globals other
      simpa [Table.lookup_intern, hother] using hglobal
  · simp only [hty, if_false]
    refine .left ⟨hodd, ?_, ?_, hty⟩
    · simp [Program.globalTy, hp]
    · simp [Program.globalTy, stateAfter, hadded]

/-- Two akin programs answer a request for a global alike, or it clashes. -/
theorem global_akin (h : p.Akin sides q) (name : String) (ty : Ty) :
    Runs sides Var.renumber (global name ty p) (global name ty q) := by
  have hname := h.globals name
  cases hp : p.globals.lookup name with
  | some v =>
    cases hq : q.globals.lookup name with
    | some w =>
      rw [hp, hq] at hname
      cases hname with
      | both hvw =>
        have hty : v.ty = w.ty := Var.ty_of_renumber hvw
        rw [global_eq, global_eq, hp, hq]
        dsimp only
        rw [hty]
        by_cases hw : w.ty = ty
        · simp only [hw, if_true]
          exact .answers hvw h
        · simp only [hw, if_false]
          exact .fails h
    | none =>
      rw [hp, hq] at hname
      cases hname with
      | left hodd hv => exact global_left h hp hq hodd hv ty
  | none =>
    cases hq : q.globals.lookup name with
    | some w =>
      rw [hp, hq] at hname
      cases hname with
      | right hodd hw =>
        exact (global_left h.symm hq hp hodd hw ty).symm fun _ _ hakin => hakin.symm
    | none =>
      have hsame : Var.renumber sides.number ⟨p.supply.next, name, ty, .global⟩ =
          Var.renumber sides.number' ⟨q.supply.next, name, ty, .global⟩ :=
        sides.alike.renumber _ _ _ ty (by simp)
      rw [global_eq, global_eq, hp, hq]
      refine .answers hsame ⟨h.config, h.arrays, fun other => ?_⟩
      by_cases hother : name = other
      · subst hother
        simp only [Table.lookup_intern, hp, hq, Option.none_or, beq_self_eq_true, if_true]
        exact .both hsame
      · have hglobal := h.globals other
        simpa [Table.lookup_intern, hother] using hglobal

end Session

end GuardedFlow
