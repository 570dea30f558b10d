import GuardedFlow.Proofs.Program.Caches

/-!
# Sessions with a program

A client makes demands on a program one after another, and goes on after a failure. `FirstWins` collects
what a client can rely on over whole sessions: entries are shared and never replaced, a global is refused
only for its type, and a method gets its body from the one demand that succeeded in lowering it.
`Session.firstWins` proves it for all sessions from a new program. What one demand does is stated by
`Session.Served`, which adds up.
-/

namespace GuardedFlow

/-- What a client can demand of a program. -/
inductive Demand where
  | method (sig : MethodSig)
  | arrayClass (element : Ty)
  | global (name : String) (ty : Ty)
  | lower (body : Body) (oracle : PredecessorOracle)
  | lowerByTransfers (body : Body)
  /-- The control-flow graph of a body, without a method that gets it. -/
  | flowOf (body : Body) (oracle : PredecessorOracle)
  | lowerAll (bodies : List Body)

/-- What a program answers. -/
inductive Answer where
  | method (id : Nat)
  | arrayClass (id : Nat)
  | global (v : Var)
  | flow (flow : Flow)
  | batch (slots : List (Except Error Nat))
  | failed (e : Error)

/-- The end of a run as an answer. -/
def Answer.ofResult {α : Type} (answer : α → Answer) : EStateM.Result Error Program α → Answer × Program
  | .ok a p => (answer a, p)
  | .error e p => (.failed e, p)

/-- What the entries of a program are kept under. -/
inductive Key where
  | method (signature : String)
  | arrayClass (element : Ty)
  | global (name : String)

/-- An entry of a program with its key. Methods and array classes are told apart by their numbers. -/
inductive Entry where
  | method (signature : String) (id : Nat)
  | arrayClass (element : Ty) (id : Nat)
  | global (name : String) (v : Var)

/-- The key of an entry. -/
def Entry.key : Entry → Key
  | method signature _ => .method signature
  | arrayClass element _ => .arrayClass element
  | global name _ => .global name

/-- A program has an entry under its key. -/
def Program.Holds (p : Program) : Entry → Prop
  | .method signature id => p.methods.find? signature = some id
  | .arrayClass element id => p.arrayClasses.find? element = some id
  | .global name v => p.globals.lookup name = some v

namespace Demand

/-- The answer to a demand, and the program after it. -/
def serve : Demand → Program → Answer × Program
  | method sig, p => (.method (p.resolve sig).1, (p.resolve sig).2)
  | arrayClass element, p => (.arrayClass (p.arrayClassId element).1, (p.arrayClassId element).2)
  | global name ty, p => Answer.ofResult .global (Session.global name ty p)
  | lower body oracle, p => Answer.ofResult .method (Session.lower body oracle p)
  | lowerByTransfers body, p => Answer.ofResult .method (Session.lowerByTransfers body p)
  | flowOf body oracle, p => Answer.ofResult .flow (Session.flowOf body oracle p)
  | lowerAll bodies, p => (.batch (Session.lowerAll bodies p).1, (Session.lowerAll bodies p).2)

/-- The bodies of a batch that were lowered, with the numbers of their methods. -/
def loweredSlots (bodies : List Body) (slots : List (Except Error Nat)) : List (Body × Nat) :=
  (bodies.zip slots).filterMap fun (body, slot) => slot.toOption.map fun id => (body, id)

/-- The bodies that were lowered into methods, with the numbers of these. -/
def lowered : Demand → Answer → List (Body × Nat)
  | lower body _, .method id | lowerByTransfers body, .method id => [(body, id)]
  | lowerAll bodies, .batch slots => loweredSlots bodies slots
  | _, _ => []

/-- The entries that a client was given. -/
def entries : Demand → Answer → List Entry
  | method sig, .method id => [.method sig.text id]
  | arrayClass element, .arrayClass id => [.arrayClass element id]
  | global name _, .global v => [.global name v]
  | demand, answer => (demand.lowered answer).map fun (body, id) => .method body.method.text id

end Demand

namespace Session

/-- The demands of a session with their answers. -/
def history : List Demand → Program → List (Demand × Answer)
  | [], _ => []
  | demand :: rest, p => (demand, (demand.serve p).1) :: history rest (demand.serve p).2

/-- The program after a session. -/
def after : List Demand → Program → Program
  | [], p => p
  | demand :: rest, p => after rest (demand.serve p).2

/-- All entries that a client was given. -/
def entries (demands : List Demand) (p : Program) : List Entry :=
  (history demands p).flatMap fun (demand, answer) => demand.entries answer

/-- All bodies that were lowered into methods, with the numbers of these. -/
def lowered (demands : List Demand) (p : Program) : List (Body × Nat) :=
  (history demands p).flatMap fun (demand, answer) => demand.lowered answer

/-- The signatures of all bodies that were lowered into methods. -/
def signatures (lowered : List (Body × Nat)) : List String := lowered.map fun (body, _) => body.method.text

end Session

/-- A program has a body of its own making in the method with a number: the method is found under the
signature of the body, and its control-flow graph is the lowered body. -/
structure Program.Attached (p : Program) (body : Body) (id : Nat) : Prop where
  found : p.methods.find? body.method.text = some id
  method : ∃ m flow, p.method? id = some m ∧ m.signature = body.method.text ∧ m.flow = some flow ∧
    ∃ oracle before after, Session.flowOf body oracle before = .ok flow after

/-- What a client can rely on after a session `past`, and as long as it goes on with `future`. -/
structure FirstWins (config : Config) (past future : List Demand) : Prop where
  /-- Every entry that was created in the past is still the same. -/
  stays : (Session.after past (.new config)).Stays (Session.after (past ++ future) (.new config))
  /-- Two answers never give different entries under one key. -/
  entries : ∀ entry ∈ Session.entries (past ++ future) (.new config),
    ∀ other ∈ Session.entries (past ++ future) (.new config), entry.key = other.key → entry = other
  /-- Everything is kept under its own key; a global has the name that it is stored under. -/
  keyed : (Session.after past (.new config)).Keyed
  /-- A global is refused exactly if it is bound under another type. -/
  refused : ∀ name ty,
    (∃ e, ((Demand.global name ty).serve (Session.after past (.new config))).1 = .failed e) ↔
      ∃ v, (Session.after past (.new config)).globals.lookup name = some v ∧ v.ty ≠ ty
  /-- Nothing is added with a refusal. -/
  unchanged : ∀ name ty e,
    ((Demand.global name ty).serve (Session.after past (.new config))).1 = .failed e →
      ((Demand.global name ty).serve (Session.after past (.new config))).2 =
        Session.after past (.new config)
  /-- No method gets a body twice. -/
  once : (Session.signatures (Session.lowered (past ++ future) (.new config))).Nodup
  /-- A method has a body exactly if a body of its signature was lowered. -/
  bodies : ∀ id m, (Session.after past (.new config)).method? id = some m →
    (m.hasBody ↔ m.signature ∈ Session.signatures (Session.lowered past (.new config)))
  /-- The answer to a lowering is the method that holds the lowered body from then on. -/
  attached : ∀ body id, (body, id) ∈ Session.lowered past (.new config) →
    (Session.after (past ++ future) (.new config)).Attached body id

namespace Program

variable {p q r : Program} {keys keys' : List String} {body : Body} {id : Nat}

/-- An entry that is held is held later on. -/
theorem Stays.holds (h : p.Stays q) {entry : Entry} (hp : p.Holds entry) : q.Holds entry := by
  cases entry with
  | method signature id => exact h.keys _ _ hp
  | arrayClass element id => exact h.arrayClasses.find? _ _ hp
  | global name v => exact h.globals _ _ hp

/-- A key has one entry. -/
theorem Holds.unique {entry other : Entry} (h : p.Holds entry) (h' : p.Holds other)
    (hkey : entry.key = other.key) : entry = other := by
  cases entry <;> cases other <;> cases hkey <;> cases Option.some.inj (h.symm.trans h') <;> rfl

/-- A body stays attached. -/
theorem Attached.stays (h : p.Attached body id) (hpq : p.Stays q) : q.Attached body id := by
  obtain ⟨hfound, m, flow, hm, hsignature, hflow, hlowered⟩ := h
  obtain ⟨m', hm', hsig, hflow'⟩ := hpq.methods _ _ hm
  refine ⟨hpq.keys _ _ hfound, m', flow, hm', ?_, hflow' flow hflow, hlowered⟩
  rw [← hsignature, Method.signature, hsig, Method.signature]

/-- The methods of the given signatures, and no others, get a body between two programs. -/
structure Gains (p q : Program) (keys : List String) : Prop where
  fresh : ∀ key ∈ keys, (p.standing key).2 = false
  once : keys.Nodup
  bodies : ∀ key, (q.standing key).2 = true ↔ (p.standing key).2 = true ∨ key ∈ keys

/-- A program with the same entries gains none. -/
theorem Gains.none (h : q.standing = p.standing) : p.Gains q [] :=
  ⟨by simp, List.nodup_nil, fun key => by simp [h]⟩

/-- A program gains an entry under a fresh key. -/
theorem Gains.one {key signature : String} (hfresh : (p.standing key).2 = false)
    (h : q.standing = Function.update p.standing key (signature, true)) : p.Gains q [key] where
  fresh other hother := by rwa [List.mem_singleton.mp hother]
  once := List.nodup_singleton key
  bodies other := by
    rw [h, List.mem_singleton]
    by_cases hother : other = key
    · simp [hother]
    · simp [hother]

/-- A method that got a body does not get another one. -/
theorem Gains.append (hpq : p.Gains q keys) (hqr : q.Gains r keys') : p.Gains r (keys ++ keys') := by
  have hnew {key : String} (hkey : key ∈ keys') : ¬((p.standing key).2 = true ∨ key ∈ keys) := by
    rw [← hpq.bodies, hqr.fresh key hkey]
    exact Bool.false_ne_true
  refine ⟨fun key hkey => ?_, ?_, fun key => ?_⟩
  · rcases List.mem_append.mp hkey with hkey | hkey
    · exact hpq.fresh key hkey
    · simpa using fun hbody => hnew hkey (.inl hbody)
  · refine List.Nodup.append hpq.once hqr.once fun key hkey hkey' => ?_
    exact hnew hkey' (.inr hkey)
  · rw [hqr.bodies, hpq.bodies, List.mem_append, or_assoc]

end Program

namespace Session

variable {p q r : Program}

/-- What demands do to a program: it changes step by step, and exactly the given bodies are attached. -/
structure Served (p : Program) (lowered : List (Body × Nat)) (q : Program) : Prop where
  steps : p.Steps q
  gains : p.Gains q (signatures lowered)
  attached : ∀ body id, (body, id) ∈ lowered → q.Attached body id

namespace Served

/-- Demands that are served one after another. -/
theorem append {first second : List (Body × Nat)} (hpq : Served p first q) (hqr : Served q second r) :
    Served p (first ++ second) r where
  steps := hpq.steps.trans hqr.steps
  gains := by
    rw [signatures, List.map_append]
    exact hpq.gains.append hqr.gains
  attached body id h := by
    rcases List.mem_append.mp h with h | h
    · exact (hpq.attached body id h).stays hqr.steps.stays
    · exact hqr.attached body id h

/-- What changes no method attaches no body. -/
theorem of_standing (hsteps : p.Steps q) (h : q.standing = p.standing) : Served p [] q :=
  ⟨hsteps, .none h, by simp⟩

/-- Where nothing is done, no demand is served. -/
theorem refl (p : Program) : Served p [] p := .of_standing .refl rfl

/-- A body that settles is attached if it was lowered. -/
theorem of_settles {body : Body} {oracle : PredecessorOracle} {before : Program}
    {o : Except Error Nat × Program} (hp : p.Keyed) (hsteps : p.Steps o.2)
    (hfound : ∀ id, o.1 = .ok id → o.2.methods.find? body.method.text = some id)
    (h : Settles p.standing body.method.text (flowOf body oracle before) o) :
    Served p (Demand.loweredSlots [body] [o.1]) o.2 := by
  generalize hrun : flowOf body oracle before = run at h
  cases h with
  | failed _ _ hstanding => exact .of_standing hsteps hstanding
  | refused _ _ hstanding _ => exact .of_standing hsteps hstanding
  | @installed flow after r id m _ _ hfresh hstanding hm _ hflow =>
    refine ⟨hsteps, .one hfresh hstanding, fun other id' hmem => ?_⟩
    obtain ⟨rfl, rfl⟩ : other = body ∧ id' = id := by
      simpa [Demand.loweredSlots, Except.toOption] using hmem
    have hfind := hfound id' rfl
    have hsignature : m.signature = other.method.text :=
      Table.find?_inj ((hsteps.keyed hp).methods id' m hm) hfind
    exact ⟨hfind, m, flow, hm, hsignature, hflow, oracle, before, after, hrun⟩

end Served

/-- The answer to a lowering is the number that the signature of the body is found under. -/
theorem find?_of_lower {body : Body} {oracle : PredecessorOracle} {id : Nat}
    (h : lower body oracle p = .ok id q) : q.methods.find? body.method.text = some id := by
  have hsteps := steps_lower body oracle p
  have hresolve : (p.resolve body.method).2.methods.find? body.method.text =
      some (p.resolve body.method).1 := Table.find?_intern_self ..
  have hgrows := growing_flowOf body oracle (p.resolve body.method).2
  rw [lower_run] at h
  cases hrun : flowOf body oracle (p.resolve body.method).2 with
  | error e r =>
    rw [hrun] at h
    cases h
  | ok flow r =>
    rw [hrun] at h hgrows
    dsimp only at h
    cases hinstall : r.install (p.resolve body.method).1 flow with
    | error e =>
      rw [hinstall] at h
      cases h
    | ok r' =>
      rw [hinstall] at h
      cases h
      exact (hgrows.trans (Program.grows_install hinstall)).keys _ _ hresolve

/-- Lowering a body serves its demand. -/
theorem served_lower (hp : p.Keyed) (body : Body) (oracle : PredecessorOracle) :
    Served p (Demand.loweredSlots [body] [(outcome (lower body oracle p)).1])
      (outcome (lower body oracle p)).2 := by
  refine .of_settles hp ?_ (fun id hid => ?_) (lower_settles body oracle p)
  · have hsteps := steps_lower body oracle p
    cases hrun : lower body oracle p <;> rw [hrun] at hsteps <;> exact hsteps
  · cases hrun : lower body oracle p with
    | ok id' q =>
      rw [hrun] at hid
      cases hid
      exact find?_of_lower hrun
    | error e q =>
      rw [hrun] at hid
      cases hid

/-- A slot of a batch serves its demand. -/
theorem served_slot (hp : p.Keyed) (body : Body) :
    Served p (Demand.loweredSlots [body] [(slot body p).1]) (slot body p).2 := by
  refine .of_settles hp (steps_slot body p) (fun id hid => ?_) (slot_settles body p)
  unfold slot lowerByTransfers at hid ⊢
  cases hrun : lower body body.predecessorOracle p with
  | ok id' q =>
    rw [hrun] at hid
    cases hid
    exact find?_of_lower hrun
  | error e q =>
    rw [hrun] at hid
    cases hid

/-- A batch serves the demands of its slots. -/
theorem served_lowerAll (hp : p.Keyed) (bodies : List Body) :
    Served p (Demand.loweredSlots bodies (lowerAll bodies p).1) (lowerAll bodies p).2 := by
  induction bodies generalizing p with
  | nil => exact .refl p
  | cons body rest ih =>
    have hslot := served_slot hp body
    have hall := hslot.append (ih (hslot.steps.keyed hp))
    rw [lowerAll_cons]
    rwa [Demand.loweredSlots, Demand.loweredSlots, ← List.filterMap_append] at hall

/-- What one demand does. -/
theorem served_demand (hp : p.Keyed) (demand : Demand) :
    Served p (demand.lowered (demand.serve p).1) (demand.serve p).2 := by
  cases demand with
  | method sig => exact .of_standing (.single (.request (.resolve p sig))) (p.standing_resolve sig)
  | arrayClass element => exact .of_standing (.single (.request (.arrayClass p element))) rfl
  | global name ty =>
    have hsteps := Program.Steps.of_requests (requests_global name ty) p
    have hstanding := global_standing name ty p
    cases hrun : global name ty p <;> rw [hrun] at hsteps hstanding <;>
      simp only [Demand.serve, hrun] <;> exact .of_standing hsteps hstanding
  | lower body oracle =>
    have hserved := served_lower hp body oracle
    cases hrun : lower body oracle p <;> rw [hrun] at hserved <;>
      simp only [Demand.serve, hrun] <;> exact hserved
  | lowerByTransfers body =>
    have hserved := served_lower hp body body.predecessorOracle
    cases hrun : lower body body.predecessorOracle p <;> rw [hrun] at hserved <;>
      simp only [Demand.serve, lowerByTransfers, hrun] <;> exact hserved
  | flowOf body oracle =>
    have hsteps := Program.Steps.of_requests (flowOf_requests body oracle) p
    have hstanding := flowOf_standing body oracle p
    cases hrun : flowOf body oracle p <;> rw [hrun] at hsteps hstanding <;>
      simp only [Demand.serve, hrun] <;> exact .of_standing hsteps hstanding
  | lowerAll bodies => exact served_lowerAll hp bodies

/-- What a session does. -/
theorem served (hp : p.Keyed) (demands : List Demand) :
    Served p (lowered demands p) (after demands p) := by
  induction demands generalizing p with
  | nil => exact .refl p
  | cons demand rest ih =>
    have hserved := served_demand hp demand
    exact hserved.append (ih (hserved.steps.keyed hp))

/-- Demands one after another. -/
theorem after_append (past future : List Demand) (p : Program) :
    after (past ++ future) p = after future (after past p) := by
  induction past generalizing p with
  | nil => rfl
  | cons demand rest ih => exact ih _

/-- The program has the entries that the answer to a demand gives. -/
theorem holds_demand (hp : p.Keyed) (demand : Demand) :
    ∀ entry ∈ demand.entries (demand.serve p).1, (demand.serve p).2.Holds entry := by
  have hattached := (served_demand hp demand).attached
  have hlowered (entry : Entry) (hentry : entry ∈ (demand.lowered (demand.serve p).1).map
      fun (body, id) => Entry.method body.method.text id) : (demand.serve p).2.Holds entry := by
    obtain ⟨⟨body, id⟩, hmem, rfl⟩ := List.mem_map.mp hentry
    exact (hattached body id hmem).found
  cases demand with
  | method sig =>
    intro entry hentry
    rw [List.mem_singleton.mp hentry]
    exact Table.find?_intern_self ..
  | arrayClass element =>
    intro entry hentry
    rw [List.mem_singleton.mp hentry]
    exact Table.find?_intern_self ..
  | global name ty =>
    intro entry hentry
    cases hrun : global name ty p with
    | ok v q =>
      simp only [Demand.serve, hrun, Answer.ofResult, Demand.entries, List.mem_singleton] at hentry ⊢
      rw [hentry]
      exact (global_ok hrun).1
    | error e q =>
      simp only [Demand.serve, hrun, Answer.ofResult, Demand.entries, Demand.lowered] at hentry
      cases hentry
  | lower | lowerByTransfers | flowOf | lowerAll => exact hlowered

/-- At the end of a session the program has all entries that were given. -/
theorem holds_entries (hp : p.Keyed) (demands : List Demand) :
    ∀ entry ∈ entries demands p, (after demands p).Holds entry := by
  induction demands generalizing p with
  | nil => simp [entries, history]
  | cons demand rest ih =>
    have hkeyed := (served_demand hp demand).steps.keyed hp
    intro entry hentry
    rcases List.mem_append.mp hentry with hentry | hentry
    · exact (served hkeyed rest).steps.stays.holds (holds_demand hp demand entry hentry)
    · exact ih hkeyed entry hentry

/-- A global is refused exactly if it is bound under another type, and then nothing changes. -/
theorem serve_global (name : String) (ty : Ty) (p : Program) :
    ((∃ e, ((Demand.global name ty).serve p).1 = .failed e) ↔
      ∃ v, p.globals.lookup name = some v ∧ v.ty ≠ ty) ∧
    ∀ e, ((Demand.global name ty).serve p).1 = .failed e → ((Demand.global name ty).serve p).2 = p := by
  cases hrun : global name ty p with
  | ok v q =>
    have hserve : (Demand.global name ty).serve p = (.global v, q) := by rw [Demand.serve, hrun]; rfl
    obtain ⟨hv, hty⟩ := global_ok hrun
    rw [hserve]
    refine ⟨⟨fun ⟨_, h⟩ => (by cases h), fun ⟨w, hw, hne⟩ => ?_⟩, fun _ h => (by cases h)⟩
    -- the global that was there before is the one that is there after
    have hgrows := growing_global name ty p
    rw [hrun] at hgrows
    rw [hgrows.globals name w hw] at hv
    cases hv
    exact absurd hty hne
  | error e q =>
    have hserve : (Demand.global name ty).serve p = (.failed e, q) := by rw [Demand.serve, hrun]; rfl
    obtain ⟨rfl, v, hv, hty, -⟩ := global_error hrun
    rw [hserve]
    exact ⟨⟨fun _ => ⟨v, hv, hty⟩, fun _ => ⟨e, rfl⟩⟩, fun _ _ => rfl⟩

/-- Over all sessions, the first request for an entry decides, and nothing is ever replaced. -/
theorem firstWins (config : Config) (past future : List Demand) : FirstWins config past future := by
  have hnew := Program.keyed_new config
  have hpast := served hnew past
  have hkeyed := hpast.steps.keyed hnew
  have hfuture := (served hkeyed future).steps.stays
  rw [← after_append] at hfuture
  have hholds := holds_entries hnew (past ++ future)
  refine ⟨hfuture, fun entry hentry other hother => (hholds entry hentry).unique (hholds other hother),
    hkeyed, fun name ty => (serve_global name ty _).1, fun name ty => (serve_global name ty _).2,
    (served hnew (past ++ future)).gains.once, fun id m hm => ?_,
    fun body id hmem => (hpast.attached body id hmem).stays hfuture⟩
  -- what is told of the signature of a method is told of the method itself
  obtain ⟨m', hm', htold⟩ := Program.standing_of_find? (hkeyed.methods id m hm)
  cases hm.symm.trans hm'
  have hbodies := hpast.gains.bodies m.signature
  rw [htold, Program.standing_new] at hbodies
  simpa using hbodies

end Session

end GuardedFlow
