import GuardedFlow.Program.Batch

/-!
# How a program grows

Requests only add to a program: the configuration stays, a global keeps the variable of its first
request, an array class keeps its fields, and numbers for variables are used up. `Program.Grows`
states this for two programs, and `Session.Growing` for a request, whether it succeeds or fails. What
was added to a program is named after the key it was asked for under, which `Program.Named` records.
-/

namespace GuardedFlow

/-- The run of two steps one after another. -/
theorem bind_run {ε σ α β : Type} (m : EStateM ε σ α) (f : α → EStateM ε σ β) (s : σ) :
    (m >>= f) s = match m s with
      | .ok a t => f a t
      | .error e t => .error e t := by
  change EStateM.bind m f s = _
  unfold EStateM.bind
  cases m s <;> rfl

/-- Whether a run ends with an answer. -/
def succeeds {ε σ α : Type} : EStateM.Result ε σ α → Bool
  | .ok .. => true
  | .error .. => false

/-- The state that a run ends in. -/
def stateAfter {ε σ α : Type} : EStateM.Result ε σ α → σ
  | .ok _ s | .error _ s => s

/-- The answer of a run that succeeds. -/
theorem exists_ok {ε σ α : Type} {r : EStateM.Result ε σ α} (h : succeeds r) :
    ∃ a, r = .ok a (stateAfter r) := by
  cases r with
  | ok a s => exact ⟨a, rfl⟩
  | error e s => cases h

/-- Whether a run ends with an answer that has a property. -/
def succeedsWith {ε σ α : Type} (P : α → Prop) [DecidablePred P] : EStateM.Result ε σ α → Bool
  | .ok a _ => decide (P a)
  | .error .. => false

/-- A success that can be checked is one. -/
theorem exists_ok_with {ε σ α : Type} {r : EStateM.Result ε σ α} {P : α → Prop} [DecidablePred P]
    (h : succeedsWith P r) : ∃ a, r = .ok a (stateAfter r) ∧ P a := by
  cases r with
  | ok a s => exact ⟨a, rfl, of_decide_eq_true h⟩
  | error e s => cases h

namespace Table

variable {κ α : Type}

/-- Changing a value changes no other value. -/
theorem get?_modify (t : Table κ α) (id other : Nat) (f : α → α) :
    (t.modify id f).get? other = (t.get? other).map fun value => if id = other then f value else value := by
  change ((t.entries.modify id fun entry => (entry.1, f entry.2))[other]?).map (·.2) = _
  rw [Array.getElem?_modify]
  by_cases h : id = other
  · subst h
    simp [get?, Function.comp_def]
  · simp [get?, h, Function.comp_def]

variable [BEq κ]

/-- A key that is known has a value. -/
theorem get?_of_find? {t : Table κ α} {key : κ} {id : Nat} (h : t.find? key = some id) :
    ∃ value, t.get? id = some value := by
  obtain ⟨hlt, -⟩ := Array.findIdx?_eq_some_iff_findIdx_eq.mp h
  exact ⟨t.entries[id].2, by simp [get?, Array.getElem?_eq_getElem hlt]⟩

/-- Asking for a known key changes nothing. -/
theorem intern_of_known {t : Table κ α} {key : κ} {id : Nat} (value : α)
    (h : t.find? key = some id) : t.intern key value = (id, t) := by
  simp only [intern, h]

/-- Asking for an unknown key adds it with the next number. -/
theorem intern_of_unknown {t : Table κ α} {key : κ} (value : α) (h : t.find? key = none) :
    t.intern key value = (t.size, ⟨t.entries.push (key, value)⟩) := by
  simp only [intern, h]

/-- Among the keys that were known before, an added key changes nothing; it comes last itself. -/
theorem lookup_push [LawfulBEq κ] (t : Table κ α) (key other : κ) (value : α) :
    Table.lookup ⟨t.entries.push (key, value)⟩ other =
      (t.lookup other).or (if key == other then some value else none) := by
  have hfind : Table.find? ⟨t.entries.push (key, value)⟩ other =
      (t.find? other).or (if key == other then some t.entries.size else none) :=
    Array.findIdx?_push
  cases h : t.find? other with
  | some id =>
    have hlt : id < t.entries.size := (Array.findIdx?_eq_some_iff_findIdx_eq.mp h).1
    obtain ⟨found, hfound⟩ := get?_of_find? h
    have hget : Table.get? ⟨t.entries.push (key, value)⟩ id = some found := by
      rw [← hfound]
      simp [get?, Array.getElem?_push, Nat.ne_of_lt hlt]
    simp [lookup, hfind, h, hget, hfound]
  | none =>
    by_cases hkey : key == other
    · simp [lookup, hfind, h, hkey, get?]
    · simp [lookup, hfind, h, hkey]

/-- Asking for a key decides its value if it had none, and touches no other key. -/
theorem lookup_intern [LawfulBEq κ] (t : Table κ α) (key other : κ) (value : α) :
    (t.intern key value).2.lookup other =
      (t.lookup other).or (if key == other then some value else none) := by
  cases h : t.find? key with
  | none => rw [intern_of_unknown value h, lookup_push]
  | some id =>
    rw [intern_of_known value h]
    obtain ⟨found, hfound⟩ := get?_of_find? h
    by_cases hkey : key = other
    · subst hkey
      simp [lookup, h, hfound]
    · simp [hkey]

/-- Asking for a key gives it the next number if it was unknown, and touches no other key. -/
theorem find?_intern [LawfulBEq κ] (t : Table κ α) (key other : κ) (value : α) :
    (t.intern key value).2.find? other =
      (t.find? other).or (if key == other then some (t.intern key value).1 else none) := by
  cases h : t.find? key with
  | none =>
    rw [intern_of_unknown value h]
    exact Array.findIdx?_push
  | some id =>
    rw [intern_of_known value h]
    by_cases hkey : key = other
    · subst hkey
      simp [h]
    · simp [hkey]

/-- The number that a key gets is the number it is found under. -/
theorem find?_intern_self [LawfulBEq κ] (t : Table κ α) (key : κ) (value : α) :
    (t.intern key value).2.find? key = some (t.intern key value).1 := by
  rw [find?_intern]
  cases h : t.find? key with
  | none => simp
  | some id => simp [intern_of_known value h]

/-- Values keep their numbers when a key is added. -/
theorem get?_intern {t : Table κ α} {id : Nat} {found : α} (h : t.get? id = some found) (key : κ)
    (value : α) : (t.intern key value).2.get? id = some found := by
  cases hkey : t.find? key with
  | some _ => rw [intern_of_known value hkey, h]
  | none =>
    obtain ⟨entry, hentry, -⟩ := Option.map_eq_some_iff.mp h
    have hlt : id < t.entries.size := (Array.getElem?_eq_some_iff.mp hentry).1
    rw [intern_of_unknown value hkey, ← h]
    simp [get?, Array.getElem?_push, Nat.ne_of_lt hlt]

/-- Changing a value changes no key. -/
theorem find?_modify (t : Table κ α) (id : Nat) (f : α → α) (key : κ) :
    (t.modify id f).find? key = t.find? key := by
  change ((t.entries.modify id fun entry => (entry.1, f entry.2)).findIdx? (·.1 == key)) = _
  have hkeys : (t.entries.modify id fun entry => (entry.1, f entry.2)).map (·.1) =
      t.entries.map (·.1) := by
    apply Array.ext_getElem?
    intro i
    by_cases hi : id = i
    · simp [Array.getElem?_modify, hi, Function.comp_def]
    · simp [Array.getElem?_modify, hi]
  have hfind (entries : Array (κ × α)) : entries.findIdx? (·.1 == key) =
      (entries.map (·.1)).findIdx? (· == key) := by
    simp [Array.findIdx?_map, Function.comp_def]
  rw [hfind, hkeys, ← hfind]
  rfl

end Table

namespace Program

/-- Every global variable has the name under which the program keeps it. -/
def Named (p : Program) : Prop :=
  ∀ name v, p.globals.lookup name = some v → v.name = name ∧ v.role = .global

/-- The program of which nothing was asked has no global that could be misnamed. -/
theorem named_new (config : Config) : (Program.new config).Named := by
  intro name v h
  simp [Program.new, Table.lookup, Table.find?, Table.empty] at h

/-- What stays of a program when requests are made to it. -/
structure Grows (p q : Program) : Prop where
  config : q.config = p.config
  globals : ∀ name v, p.globals.lookup name = some v → q.globals.lookup name = some v
  /-- A global that is added is named after the key it was asked for under. -/
  added : ∀ name v, q.globals.lookup name = some v →
    p.globals.lookup name = some v ∨ v.name = name ∧ v.role = .global
  arrays : ∀ element, (q.arrayClass element).1 = (p.arrayClass element).1
  supply : p.supply.next ≤ q.supply.next
  keys : ∀ key id, p.methods.find? key = some id → q.methods.find? key = some id
  /-- A method stays what it is, and so does its body once it has one. -/
  methods : ∀ id m, p.method? id = some m → ∃ m', q.method? id = some m' ∧ m'.sig = m.sig ∧
    ∀ flow, m.flow = some flow → m'.flow = some flow

/-- A program that nothing was asked of has grown by nothing. -/
theorem Grows.refl (p : Program) : Grows p p :=
  ⟨rfl, fun _ _ h => h, fun _ _ h => .inl h, fun _ => rfl, Nat.le_refl _, fun _ _ h => h,
    fun _ m h => ⟨m, h, rfl, fun _ hflow => hflow⟩⟩

/-- Growth adds up. -/
theorem Grows.trans {p q r : Program} (hpq : Grows p q) (hqr : Grows q r) : Grows p r where
  config := hqr.config.trans hpq.config
  globals name v h := hqr.globals name v (hpq.globals name v h)
  added name v h := by
    rcases hqr.added name v h with h | h
    · exact hpq.added name v h
    · exact .inr h
  arrays element := (hqr.arrays element).trans (hpq.arrays element)
  supply := Nat.le_trans hpq.supply hqr.supply
  keys key id h := hqr.keys key id (hpq.keys key id h)
  methods id m h := by
    obtain ⟨m', hm', hsig, hflow⟩ := hpq.methods id m h
    obtain ⟨m'', hm'', hsig', hflow'⟩ := hqr.methods id m' hm'
    exact ⟨m'', hm'', hsig'.trans hsig, fun flow h => hflow' flow (hflow flow h)⟩

/-- A program stays well named. -/
theorem Grows.named {p q : Program} (h : Grows p q) (hp : p.Named) : q.Named := by
  intro name v hv
  rcases h.added name v hv with hold | hnew
  · exact hp name v hold
  · exact hnew

/-- What a program tells of the method that a key is resolved to: its signature, and whether it has a
body. A method that is not known yet gets the key as its signature. -/
def standing (p : Program) (key : String) : String × Bool :=
  match p.methods.lookup key with
  | some m => (m.signature, m.hasBody)
  | none => (key, false)

/-- In a new program no method has a body. -/
theorem standing_new (config : Config) (key : String) :
    (Program.new config).standing key = (key, false) := by
  simp [standing, Program.new, Table.lookup, Table.find?, Table.empty]

/-- Resolving a method adds at most that method, without a body. -/
theorem standing_resolve (p : Program) (sig : MethodSig) : (p.resolve sig).2.standing = p.standing := by
  funext key
  have hlookup : (p.resolve sig).2.methods.lookup key =
      (p.methods.lookup key).or (if sig.text == key then some ⟨sig, none⟩ else none) :=
    Table.lookup_intern ..
  unfold standing
  rw [hlookup]
  cases p.methods.lookup key with
  | some m => rfl
  | none =>
    by_cases hkey : sig.text = key
    · simp [hkey, Method.signature, Method.hasBody]
    · simp [hkey]

/-- The tag field depends on the configuration only. -/
theorem typeField_congr {p q : Program} (h : p.config = q.config) : p.typeField = q.typeField := by
  simp [Program.typeField, h]

/-- The idioms depend on the configuration only. -/
theorem idioms_congr {p q : Program} (h : p.config = q.config) : p.idioms = q.idioms := by
  simp [Program.idioms, h]

/-- A program that grows keeps the field of its type tags. -/
theorem Grows.typeField {p q : Program} (h : Grows p q) : q.typeField = p.typeField :=
  typeField_congr h.config

/-- A program that grows keeps its idioms. -/
theorem Grows.idioms {p q : Program} (h : Grows p q) : q.idioms = p.idioms :=
  idioms_congr h.config

/-- A program that differs in its supply and its log only has grown if numbers were only used up. -/
theorem Grows.of_supply (p : Program) (log : Log) (supply : VarSupply)
    (h : p.supply.next ≤ supply.next) : Grows p { p with log, supply } :=
  { Grows.refl p with supply := h }

/-- Resolving a method adds at most that method. -/
theorem grows_resolve (p : Program) (sig : MethodSig) : Grows p (p.resolve sig).2 where
  config := rfl
  globals _ _ h := h
  added _ _ h := .inl h
  arrays _ := rfl
  supply := Nat.le_refl _
  keys key id h := by
    change (p.methods.intern sig.text ⟨sig, none⟩).2.find? key = some id
    rw [Table.find?_intern, h, Option.some_or]
  methods id m h := ⟨m, Table.get?_intern h _ _, rfl, fun _ hflow => hflow⟩

/-- Reporting a finding adds to the log only. -/
theorem grows_report (p : Program) (d : Diagnostic) : Grows p (p.report d) :=
  Grows.of_supply p _ _ (Nat.le_refl _)

/-- Attaching a control-flow graph changes nothing but the body of a method that has none. -/
theorem grows_install {p q : Program} {id : Nat} {flow : Flow} (h : p.install id flow = .ok q) :
    p.Grows q := by
  unfold install at h
  cases hm : p.method? id with
  | none =>
    rw [hm] at h
    cases h
    exact .refl p
  | some m =>
    rw [hm] at h
    by_cases hbody : m.hasBody
    · simp [hbody] at h
    · simp only [hbody] at h
      cases h
      have hflow : m.flow = none := by simpa [Method.hasBody] using hbody
      refine { Grows.refl p with keys := fun key other h => ?_, methods := fun other m' h => ?_ }
      · exact (Table.find?_modify _ _ _ _).trans h
      · have hget : (p.methods.modify id ({ · with flow := some flow })).get? other = _ :=
          Table.get?_modify ..
        rw [show p.methods.get? other = some m' from h, Option.map_some] at hget
        refine ⟨_, hget, ?_, fun old hold => ?_⟩
        · split <;> rfl
        · split
          · rename_i hid
            subst hid
            rw [hm] at h
            cases h
            rw [hflow] at hold
            cases hold
          · exact hold

/-- The class of an element type is the entry for it, if there is one, and the made one otherwise. -/
theorem arrayClass_fst (p : Program) (element : Ty) :
    (p.arrayClass element).1 =
      (p.arrayClasses.lookup element).getD (p.makeArrayClass element) := by
  cases h : p.arrayClasses.find? element with
  | some id => simp [arrayClass, arrayClassId, Table.intern, h, Table.lookup]
  | none => simp [arrayClass, arrayClassId, Table.intern, h, Table.lookup, Table.get?, Table.size]

/-- Asking for an array class changes no array class, its own included. -/
theorem grows_arrayClass (p : Program) (element : Ty) : Grows p (p.arrayClass element).2 where
  config := rfl
  globals _ _ h := h
  added _ _ h := .inl h
  arrays other := by
    rw [arrayClass_fst, arrayClass_fst]
    change (Table.lookup (p.arrayClasses.intern element (p.makeArrayClass element)).2 other).getD
      (p.makeArrayClass other) = _
    rw [Table.lookup_intern]
    by_cases h : element = other
    · subst h
      cases p.arrayClasses.lookup element <;> simp
    · simp [h]
  supply := Nat.le_refl _
  keys _ _ h := h
  methods _ m h := ⟨m, h, rfl, fun _ hflow => hflow⟩

end Program

namespace Session

variable {α : Type}

/-- A request that grows the program, whether it succeeds or fails. -/
def Growing (m : Session α) : Prop :=
  ∀ p, match m p with
    | .ok _ q => Program.Grows p q
    | .error _ q => Program.Grows p q

/-- A session that lets programs grow does so whether it succeeds or fails. -/
theorem Growing.grows {m : Session α} (h : Growing m) (p : Program) : p.Grows (stateAfter (m p)) := by
  have hp := h p
  cases hrun : m p <;> rw [hrun] at hp <;> exact hp

/-- A request for a global answers with the one of that name if its type is the requested one, and
adds it if there is none. -/
theorem global_eq (name : String) (ty : Ty) (p : Program) :
    global name ty p = match p.globals.lookup name with
      | some v =>
        if v.ty = ty then .ok v p
        else .error (.lowering (.globalConflict name ty v.ty) .outside) p
      | none =>
        let v : Var := ⟨p.supply.next, name, ty, .global⟩
        .ok v { p with globals := (p.globals.intern name v).2, supply := ⟨p.supply.next + 1⟩ } := by
  change (match p.globals.lookup name with
    | some v => if v.ty = ty then pure v else throw _
    | none => _ : Session Var) p = _
  cases p.globals.lookup name with
  | none => rfl
  | some v => by_cases h : v.ty = ty <;> simp only [h, if_true, if_false] <;> rfl

/-- The answer of a request for a global: the variable that the program then has under the name. -/
theorem global_ok {name : String} {ty : Ty} {p q : Program} {v : Var}
    (h : global name ty p = .ok v q) : q.globals.lookup name = some v ∧ v.ty = ty := by
  rw [global_eq] at h
  cases hlookup : p.globals.lookup name with
  | some w =>
    simp only [hlookup] at h
    split at h
    · cases h
      exact ⟨hlookup, ‹_›⟩
    · cases h
  | none =>
    simp only [hlookup] at h
    cases h
    exact ⟨by simp [Table.lookup_intern, hlookup], rfl⟩

/-- A request for a global fails if the program has one of that name and another type. -/
theorem global_error {name : String} {ty : Ty} {p q : Program} {e : Error}
    (h : global name ty p = .error e q) : q = p ∧ ∃ v, p.globals.lookup name = some v ∧ v.ty ≠ ty ∧
      e = .lowering (.globalConflict name ty v.ty) .outside := by
  rw [global_eq] at h
  cases hlookup : p.globals.lookup name with
  | some v =>
    simp only [hlookup] at h
    split at h
    · cases h
    · cases h
      exact ⟨rfl, v, rfl, ‹_›, rfl⟩
  | none =>
    simp only [hlookup] at h
    cases h

/-- A request for a global resolves no method. -/
theorem global_standing (name : String) (ty : Ty) (p : Program) :
    (stateAfter (global name ty p)).standing = p.standing := by
  rw [global_eq]
  cases p.globals.lookup name with
  | some v => by_cases h : v.ty = ty <;> simp only [h, if_true, if_false] <;> rfl
  | none => rfl

/-- A request for a global adds at most that global, under its name. -/
theorem growing_global (name : String) (ty : Ty) : Growing (global name ty) := by
  intro p
  rw [global_eq]
  cases hlookup : p.globals.lookup name with
  | some w => by_cases hty : w.ty = ty <;> simp only [hty, if_true, if_false] <;> exact .refl p
  | none =>
    refine { Program.Grows.refl p with
      globals := fun other v h => ?_, added := fun other v h => ?_, supply := Nat.le_succ _ }
    · simp [Table.lookup_intern, h]
    · change (p.globals.intern name ⟨p.supply.next, name, ty, .global⟩).2.lookup other = some v at h
      rw [Table.lookup_intern] at h
      cases hother : p.globals.lookup other with
      | some w =>
        rw [hother] at h
        exact .inl h
      | none =>
        rw [hother, Option.none_or] at h
        obtain ⟨hname, hv⟩ := Option.ite_none_right_eq_some.mp h
        cases hv
        exact .inr ⟨by simpa using hname, rfl⟩

end Session

end GuardedFlow
