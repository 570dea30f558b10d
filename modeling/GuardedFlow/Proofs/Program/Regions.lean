import GuardedFlow.Proofs.Lowering.Accesses
import GuardedFlow.Proofs.Program.Caches

/-!
# The regions of the heap

Each instance field, each element type of arrays and each static field is a region of the heap, with a
global variable of its own. Globals are found by name only, and different regions can have the same
name. They are still told apart, since the type of a heap map holds the class or the element type as
well, and a program keeps one type for each name. `Program.Sound` is what every program satisfies that
only had requests and bodies, and all that the separation of regions needs.
-/

namespace GuardedFlow

/-- A part of the heap with a variable of its own. -/
inductive Region where
  | field (field : FieldSig)
  /-- The elements of all arrays of an element type. -/
  | elements (element : Ty)
  | static (field : FieldSig)
  deriving DecidableEq

namespace Region

/-- The name of the variable of a region. -/
def name : Region → String
  | field f => f.mapName
  | elements element => element.mapName
  | static f => f.qualifiedName

/-- The type of the variable of a region. -/
def ty : Region → Ty
  | field f => .map [.named f.owner] f.ty
  | elements element => .map [.array element, .int] element
  | static f => f.ty

/-- The type of what is stored in a region. -/
def valueTy : Region → Ty
  | field f | static f => f.ty
  | elements element => element

end Region

/-- A list is split at the first place of an element in one way only. -/
theorem append_cons_inj {α : Type} {a : α} {before before' after after' : List α} (h : a ∉ before)
    (h' : a ∉ before') (heq : before ++ a :: after = before' ++ a :: after') :
    before = before' ∧ after = after' := by
  rcases List.append_eq_append_iff.mp heq with ⟨middle, rfl, hrest⟩ | ⟨middle, rfl, hrest⟩
  all_goals
    cases middle with
    | nil => simpa [eq_comm] using hrest
    | cons b middle =>
      obtain rfl := (List.cons.inj hrest).1
      simp at h h'

/-- A qualified name is split at its last dot. -/
theorem FieldSig.qualifiedName_inj {f g : FieldSig} (hf : '.' ∉ f.name.toList) (hg : '.' ∉ g.name.toList)
    (h : f.qualifiedName = g.qualifiedName) : f.owner = g.owner ∧ f.name = g.name := by
  have hlist := congrArg (·.toList.reverse) h
  simp only [qualifiedName, String.toList_append, List.reverse_append] at hlist
  change f.name.toList.reverse ++ '.' :: f.owner.toList.reverse =
    g.name.toList.reverse ++ '.' :: g.owner.toList.reverse at hlist
  obtain ⟨hname, howner⟩ := append_cons_inj (by simpa using hf) (by simpa using hg) hlist
  exact ⟨String.toList_inj.mp (List.reverse_inj.mp howner), String.toList_inj.mp (List.reverse_inj.mp hname)⟩

/-- The map of an instance field tells the name of the field, if its class is known. -/
theorem FieldSig.name_of_mapName {f g : FieldSig} (howner : f.owner = g.owner)
    (h : f.mapName = g.mapName) : f.name = g.name := by
  change "$heap<" ++ f.qualifiedName ++ ">" = "$heap<" ++ g.qualifiedName ++ ">" at h
  rw [String.append_left_inj, String.append_right_inj, qualifiedName, qualifiedName, howner,
    String.append_right_inj] at h
  exact h

namespace Program

/-- A program has a variable for a region. -/
structure Has (p : Program) (region : Region) (v : Var) : Prop where
  lookup : p.globals.lookup region.name = some v
  ty : v.ty = region.ty

/-- A region keeps its global. -/
theorem Grows.has {p q : Program} {region : Region} {v : Var} (h : p.Grows q) (hv : p.Has region v) :
    q.Has region v := ⟨h.globals _ _ hv.lookup, hv.ty⟩

/-- The numbers of globals are used up, and no two globals have the same number. -/
structure Numbered (p : Program) : Prop where
  used : ∀ name v, p.globals.lookup name = some v → v.id < p.supply.next
  distinct : ∀ name other v w, p.globals.lookup name = some v → p.globals.lookup other = some w →
    v.id = w.id → name = other

/-- A new program has no globals to number. -/
theorem numbered_new (config : Config) : (Program.new config).Numbered := by
  constructor <;> intros <;> simp_all [Program.new, Table.lookup, Table.find?, Table.empty]

/-- Only a request for a global changes the globals. -/
theorem Numbered.congr {p q : Program} (hp : p.Numbered) (hglobals : q.globals = p.globals)
    (hsupply : p.supply.next ≤ q.supply.next) : q.Numbered where
  used name v hv := Nat.lt_of_lt_of_le (hp.used name v (hglobals ▸ hv)) hsupply
  distinct name other v w hv hw := hp.distinct name other v w (hglobals ▸ hv) (hglobals ▸ hw)

/-- What a program knows of its globals after a request for one of them: those that it had, and the
requested one, which has the next number if it is new. -/
theorem lookup_stateAfter_global {p : Program} {name : String} {ty : Ty} {other : String} {v : Var}
    (h : (stateAfter (Session.global name ty p)).globals.lookup other = some v) :
    p.globals.lookup other = some v ∨ other = name ∧ v.id = p.supply.next ∧
      (stateAfter (Session.global name ty p)).supply.next = p.supply.next + 1 := by
  rw [Session.global_eq] at h ⊢
  cases hlookup : p.globals.lookup name with
  | some w =>
    rw [hlookup] at h
    left
    by_cases hty : w.ty = ty <;> simpa [hty, stateAfter] using h
  | none =>
    rw [hlookup] at h
    change (p.globals.intern name ⟨p.supply.next, name, ty, .global⟩).2.lookup other = some v at h
    rw [Table.lookup_intern] at h
    cases hother : p.globals.lookup other with
    | some w =>
      rw [hother] at h
      exact .inl h
    | none =>
      rw [hother, Option.none_or] at h
      obtain ⟨hname, hv⟩ := Option.ite_none_right_eq_some.mp h
      cases hv
      exact .inr ⟨(by simpa using hname : name = other).symm, rfl, rfl⟩

/-- A new global gets a number that no other one has. -/
theorem Numbered.global {p : Program} (hp : p.Numbered) (name : String) (ty : Ty) :
    (stateAfter (Session.global name ty p)).Numbered where
  used other v hv := by
    rcases lookup_stateAfter_global hv with hold | ⟨-, hid, hnext⟩
    · exact Nat.lt_of_lt_of_le (hp.used other v hold) ((Session.growing_global name ty).grows p).supply
    · omega
  distinct first second v w hv hw hid := by
    rcases lookup_stateAfter_global hv with hv | ⟨rfl, hv, -⟩ <;>
      rcases lookup_stateAfter_global hw with hw | ⟨rfl, hw, -⟩
    · exact hp.distinct first second v w hv hw hid
    · have := hp.used first v ‹_›
      omega
    · have := hp.used second w ‹_›
      omega
    · rfl

/-- What the programs have in common that only had requests and bodies: globals have the names that
they are kept under and numbers of their own, and the length of an array is an integer. -/
structure Sound (p : Program) : Prop where
  named : p.Named
  numbered : p.Numbered
  lengths : ∀ element, (p.arrayClass element).1.lengthField.ty = .int

/-- A new program is sound. -/
theorem sound_new (config : Config) : (Program.new config).Sound where
  named := named_new config
  numbered := numbered_new config
  lengths element := by
    rw [arrayClass_fst]
    simp [new, Table.lookup, Table.find?, Table.empty, makeArrayClass]

/-- A sound program that grows is sound as long as its numbers are in order. -/
theorem Sound.grow {p q : Program} (hp : p.Sound) (hpq : p.Grows q) (hq : q.Numbered) : q.Sound :=
  ⟨hpq.named hp.named, hq, fun element => hpq.arrays element ▸ hp.lengths element⟩

/-- A step keeps the numbers of globals in order. -/
theorem Step.numbered {p q : Program} (h : p.Step q) (hp : p.Numbered) : q.Numbered := by
  cases h with
  | install h => rcases eq_of_install h with rfl | rfl <;> exact hp.congr rfl (Nat.le_refl _)
  | request h =>
    cases h with
    | global name ty => exact hp.global name ty
    | mint supply h => exact hp.congr rfl h
    | resolve | arrayClass | report => exact hp.congr rfl (Nat.le_refl _)

/-- Every program that only had requests and bodies is sound. -/
theorem Steps.sound {p q : Program} (h : p.Steps q) (hp : p.Sound) : q.Sound := by
  induction h with
  | refl => exact hp
  | tail _ hstep ih => exact ih.grow hstep.stays.toGrows (hstep.numbered ih.numbered)

/-- Since the program was made, it only had requests and bodies. -/
def Reachable (p : Program) : Prop := ∃ config, (Program.new config).Steps p

namespace Reachable

variable {p q : Program}

/-- A new program is reachable. -/
theorem new (config : Config) : (Program.new config).Reachable := ⟨config, .refl⟩

/-- What is reached from a reachable program is reachable. -/
theorem trans (h : p.Reachable) (hpq : p.Steps q) : q.Reachable :=
  let ⟨config, hp⟩ := h
  ⟨config, hp.trans hpq⟩

/-- A reachable program is sound. -/
theorem sound (h : p.Reachable) : p.Sound :=
  let ⟨config, hp⟩ := h
  hp.sound (sound_new config)

end Reachable

namespace Has

variable {p : Program} {region other : Region} {v w : Var} {f g : FieldSig} {element : Ty}

/-- Regions share a variable only if they agree in its name and in its type. -/
theorem of_same (hp : p.Numbered) (hv : p.Has region v) (hw : p.Has other w) (h : v.same w) :
    region.name = other.name ∧ region.ty = other.ty := by
  have hname := hp.distinct _ _ v w hv.lookup hw.lookup (beq_iff_eq.mp h)
  refine ⟨hname, ?_⟩
  have hvar : w = v := Option.some.inj (hw.lookup.symm.trans (hname ▸ hv.lookup))
  rw [← hv.ty, ← hw.ty, hvar]

/-- A region shares a variable with the regions of that name. -/
theorem same_of_name (hv : p.Has region v) (hw : p.Has other w) (h : region.name = other.name) :
    v.same w := by
  rw [Option.some.inj (hv.lookup.symm.trans (h ▸ hw.lookup))]
  exact beq_self_eq_true _

/-- Two instance fields share a map only if they agree in class, name and type. -/
theorem field_iff (hp : p.Numbered) (hv : p.Has (.field f) v) (hw : p.Has (.field g) w) :
    v.same w ↔ f = g := by
  constructor
  · intro h
    obtain ⟨hname, hty⟩ := of_same hp hv hw h
    obtain ⟨howner, hvalue⟩ : f.owner = g.owner ∧ f.ty = g.ty := by simpa [Region.ty] using hty
    have hfield : f.name = g.name := FieldSig.name_of_mapName howner hname
    cases f
    cases g
    simp_all
  · rintro rfl
    exact same_of_name hv hw rfl

/-- Two element types share a map only if they are equal. -/
theorem elements_iff (hp : p.Numbered) {s t : Ty} (hv : p.Has (.elements s) v)
    (hw : p.Has (.elements t) w) : v.same w ↔ s = t := by
  constructor
  · intro h
    obtain ⟨-, hty⟩ := of_same hp hv hw h
    simpa [Region.ty] using hty
  · rintro rfl
    exact same_of_name hv hw rfl

/-- The map of a field has one key, and that of an element type has two. -/
theorem field_ne_elements (hp : p.Numbered) (hv : p.Has (.field f) v)
    (hw : p.Has (.elements element) w) : ¬ v.same w := by
  intro h
  obtain ⟨-, hty⟩ := of_same hp hv hw h
  simp [Region.ty] at hty

/-- Two static fields without a dot in their names share a variable exactly if they agree in class and
name. -/
theorem static_iff (hp : p.Numbered) (hv : p.Has (.static f) v) (hw : p.Has (.static g) w)
    (hf : '.' ∉ f.name.toList) (hg : '.' ∉ g.name.toList) :
    v.same w ↔ f.owner = g.owner ∧ f.name = g.name := by
  constructor
  · intro h
    exact FieldSig.qualifiedName_inj hf hg (of_same hp hv hw h).1
  · intro ⟨howner, hname⟩
    refine same_of_name hv hw ?_
    simp only [Region.name, FieldSig.qualifiedName, howner, hname]

/-- A static field shares a variable with a heap map only if it has the type of one. -/
theorem static_ne_map (hp : p.Numbered) (hv : p.Has (.static f) v) (hw : p.Has region w)
    (hregion : ∀ g, region ≠ .static g) (hf : ∀ keys value, f.ty ≠ .map keys value) : ¬ v.same w := by
  intro h
  obtain ⟨-, hty⟩ := of_same hp hv hw h
  cases region with
  | field g => exact hf _ _ hty
  | elements element => exact hf _ _ hty
  | static g => exact hregion g rfl

end Has

end Program

end GuardedFlow
