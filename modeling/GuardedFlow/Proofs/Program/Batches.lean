import GuardedFlow.Proofs.Lowering.Findings
import GuardedFlow.Proofs.Program.Regions
import GuardedFlow.Proofs.Program.Sessions

/-!
# The slots of a batch

A batch has a slot for each of its bodies, in order. Bodies of one signature compete for one method: the
first one that can be lowered gets it, unless the method had a body before, and the others are refused.
`Session.lowerAll_keepsBooks` says which slot ends how, and that the errors in the log are those of the
slots that failed.
-/

namespace GuardedFlow

namespace Program

/-- No method of a signature has a body. -/
def Vacant (p : Program) (signature : String) : Prop :=
  ∀ m, p.lookupMethod signature = some m → m.hasBody = false

/-- Something was reported, with the given errors. -/
def Errs (p : Program) (errors : List Diagnostic) (q : Program) : Prop :=
  ∃ added, q.log.toList = p.log.toList ++ added ∧ added.filter (·.severity = .error) = errors

variable {p q r : Program} {errors more : List Diagnostic}

/-- Errors are reported one after another. -/
theorem Errs.trans (hpq : p.Errs errors q) (hqr : q.Errs more r) : p.Errs (errors ++ more) r := by
  obtain ⟨added, hq, rfl⟩ := hpq
  obtain ⟨added', hr, rfl⟩ := hqr
  exact ⟨added ++ added', by rw [hr, hq, List.append_assoc], List.filter_append ..⟩

/-- The report of an error. -/
theorem Errs.report (p : Program) {d : Diagnostic} (hd : d.severity = .error) : p.Errs [d] (p.report d) :=
  ⟨[d], by simp [Program.report, Log.push, Log.toList], by simp [hd]⟩

/-- What a method is told is no error. -/
theorem Told.errs {method : MethodSig} {notes : List (Location × Note)} (h : p.Told method notes q) :
    p.Errs [] q := by
  refine ⟨_, h.log, List.filter_eq_nil_iff.mpr fun d hd => ?_⟩
  obtain ⟨⟨location, note⟩, -, hfinding⟩ := List.mem_filterMap.mp hd
  cases note <;> cases hfinding <;> simp [Diagnostic.indirectCall, Diagnostic.exit, Diagnostic.monitor]

/-- A signature is vacant if nothing else stands there. -/
theorem vacant_iff {signature : String} : p.Vacant signature ↔ (p.standing signature).2 = false := by
  unfold Vacant standing lookupMethod
  cases p.methods.lookup signature <;> simp

/-- A method is kept under its own signature. -/
theorem Keyed.standing (hp : p.Keyed) (signature : String) : (p.standing signature).1 = signature := by
  unfold Program.standing Table.lookup
  cases hfind : p.methods.find? signature with
  | none => rfl
  | some id =>
    obtain ⟨m, hm⟩ := Table.get?_of_find? hfind
    rw [Option.bind_some, hm]
    exact Table.find?_inj (hp.methods id m hm) hfind

/-- Every program keeps its methods under their signatures. -/
theorem Reachable.keyed (h : p.Reachable) : p.Keyed :=
  let ⟨config, hp⟩ := h
  hp.keyed (keyed_new config)

end Program

namespace Session

/-- The lowering of a body in a program, once its method was asked for. -/
def attempt (body : Body) (p : Program) : EStateM.Result Error Program Flow :=
  flowOf body body.predecessorOracle (p.resolve body.method).2

/-- The program at the turn of a body of a batch, when those before it are done with. -/
def turn (bodies : List Body) (p : Program) (i : Nat) : Program := (lowerAll (bodies.take i) p).2

/-- A body of a batch can be lowered at its turn. -/
def Lowerable (bodies : List Body) (p : Program) (i : Nat) (body : Body) : Prop :=
  bodies[i]? = some body ∧ succeeds (attempt body (turn bodies p i))

/-- The report of a body that was skipped. -/
def skipped? : Body × Except Error Nat → Option Diagnostic
  | (_, .ok _) => none
  | (body, .error e) => some
    { severity := .error
      category := .general
      message := s!"method skipped: {e}"
      method := body.method.text }

/-- How the slots of a batch and the program after it come about. -/
structure KeepsBooks (bodies : List Body) (p : Program) (slots : List (Except Error Nat)) (q : Program) :
    Prop where
  /-- Every body has its slot. -/
  length : slots.length = bodies.length
  /-- A body gets its method exactly if the method had none before the batch, the body can be lowered, and
  no earlier body of the signature can be. -/
  wins : ∀ (i : Nat) (body : Body), bodies[i]? = some body → ((∃ id, slots[i]? = some (.ok id)) ↔
    Lowerable bodies p i body ∧ p.Vacant body.method.text ∧
      ∀ j other, j < i → Lowerable bodies p j other → other.method.text ≠ body.method.text)
  /-- Of the bodies of a signature at most one gets the method. -/
  once : ∀ (i j : Nat) (body other : Body) (id id' : Nat), bodies[i]? = some body → bodies[j]? = some other →
    slots[i]? = some (.ok id) → slots[j]? = some (.ok id') → body.method.text = other.method.text → i = j
  /-- The slot of a body that got its method is the number of the method, which has the lowered body. -/
  attached : ∀ (i : Nat) (body : Body) (id : Nat), bodies[i]? = some body → slots[i]? = some (.ok id) →
    q.Attached body id
  /-- A body that can be lowered but does not get its method is refused because the method has a body. -/
  refused : ∀ (i : Nat) (body : Body) (e : Error), Lowerable bodies p i body → slots[i]? = some (.error e) →
    e = .alreadyLowered body.method.text
  /-- A body that cannot be lowered fails as its lowering does. -/
  failed : ∀ (i : Nat) (body : Body) (e : Error) (r : Program), bodies[i]? = some body →
    attempt body (turn bodies p i) = .error e r → slots[i]? = some (.error e)
  /-- The errors that are added to the log are those of the slots, in order. -/
  errors : p.Errs ((bodies.zip slots).filterMap skipped?) q

variable {p : Program} {bodies : List Body} {body : Body} {i : Nat} {signature : String}

/-! ### One body -/

/-- The errors in the log are those of the slot. -/
theorem errs_slot (body : Body) (p : Program) :
    p.Errs (skipped? (body, (slot body p).1)).toList (slot body p).2 := by
  have hresolved {q : Program} (h : (p.resolve body.method).2.Errs [] q) : p.Errs [] q := h
  unfold slot lowerByTransfers
  rw [lower_run]
  cases hrun : flowOf body body.predecessorOracle (p.resolve body.method).2 with
  | error e q =>
    obtain ⟨told, -, htold⟩ := flowOf_told_error hrun
    exact (hresolved htold.errs).trans (.report q rfl)
  | ok flow q =>
    have herrs := hresolved (flowOf_told hrun).errs
    dsimp only
    cases hinstall : q.install (p.resolve body.method).1 flow with
    | error e => exact herrs.trans (.report q rfl)
    | ok r =>
      have hlog : r.log = q.log := by rcases Program.eq_of_install hinstall with rfl | rfl <;> rfl
      unfold Program.Errs at herrs ⊢
      rwa [hlog]

/-- The signatures of a program stay vacant but for that of a body that is lowered. -/
theorem vacant_slot (body : Body) (p : Program) : (slot body p).2.Vacant signature ↔
    p.Vacant signature ∧ (succeeds (attempt body p) → body.method.text ≠ signature) := by
  have hsettles := slot_settles body p
  change Settles _ _ (attempt body p) _ at hsettles
  generalize attempt body p = run at hsettles
  generalize slot body p = o at hsettles
  rw [Program.vacant_iff, Program.vacant_iff]
  cases hsettles with
  | failed _ _ hstanding => simp [hstanding, succeeds]
  | refused _ _ hstanding hbody =>
    rw [hstanding]
    refine ⟨fun hvacant => ⟨hvacant, fun _ heq => ?_⟩, And.left⟩
    rw [← heq, hbody] at hvacant
    contradiction
  | installed _ _ _ hstanding _ _ _ =>
    rw [hstanding, Function.update_apply]
    by_cases heq : signature = body.method.text
    · simp [heq, succeeds]
    · simp [heq, succeeds, Ne.symm (Ne.intro heq)]

/-- A body is lowered if that is possible and its signature is vacant. -/
theorem slot_wins (hp : p.Keyed) (body : Body) :
    ((∃ id, (slot body p).1 = .ok id) ↔ succeeds (attempt body p) ∧ p.Vacant body.method.text) ∧
    (∀ e, succeeds (attempt body p) → (slot body p).1 = .error e → e = .alreadyLowered body.method.text) ∧
    ∀ e r, attempt body p = .error e r → (slot body p).1 = .error e := by
  have hsettles := slot_settles body p
  change Settles _ _ (attempt body p) _ at hsettles
  rw [Program.vacant_iff]
  generalize attempt body p = run at hsettles
  generalize slot body p = o at hsettles
  cases hsettles with
  | failed => simp [succeeds]
  | refused _ _ _ hbody => simp [succeeds, hbody, hp.standing, eq_comm]
  | installed _ _ hbody => simp [succeeds, hbody]

/-! ### Bodies at their turns -/

/-- The slot of a body is decided at its turn. -/
theorem slot_at (h : bodies[i]? = some body) (p : Program) :
    (lowerAll bodies p).1[i]? = some (slot body (turn bodies p i)).1 := by
  obtain ⟨before, rest, rfl, rfl⟩ := exists_split h
  rw [turn, List.take_left, lowerAll_append, lowerAll_cons,
    List.getElem?_append_right (Nat.le_of_eq (length_lowerAll before p)), length_lowerAll, Nat.sub_self,
    List.getElem?_cons_zero]

/-- The turn of the next body starts where the one before has ended. -/
theorem turn_succ (h : bodies[i]? = some body) (p : Program) :
    turn bodies p (i + 1) = (slot body (turn bodies p i)).2 := by
  rw [turn, List.take_add_one, h, lowerAll_append]
  simp only [Option.toList_some, lowerAll_cons]
  rfl

/-- A signature is vacant at the turn of a body if it was so before the batch and no earlier body of it
can be lowered. -/
theorem vacant_turn (bodies : List Body) (p : Program) (i : Nat) : (turn bodies p i).Vacant signature ↔
    p.Vacant signature ∧ ∀ j body, j < i → Lowerable bodies p j body → body.method.text ≠ signature := by
  induction i with
  | zero => simp [turn, lowerAll]
  | succ i ih =>
    have hearlier : (∀ j body, j < i + 1 → Lowerable bodies p j body → body.method.text ≠ signature) ↔
        (∀ j body, j < i → Lowerable bodies p j body → body.method.text ≠ signature) ∧
          ∀ body, Lowerable bodies p i body → body.method.text ≠ signature := by
      refine ⟨fun h => ⟨fun j body hj => h j body (by omega), fun body => h i body (by omega)⟩,
        fun h j body hj => ?_⟩
      rcases Nat.lt_succ_iff_lt_or_eq.mp hj with hj | rfl
      · exact h.1 j body hj
      · exact h.2 body
    rw [hearlier, ← and_assoc, ← ih]
    cases hbody : bodies[i]? with
    | none =>
      have hsame : turn bodies p (i + 1) = turn bodies p i := by
        rw [turn, List.take_add_one, hbody, Option.toList_none, List.append_nil, turn]
      simp [hsame, Lowerable, hbody]
    | some body =>
      rw [turn_succ hbody, vacant_slot]
      simp [Lowerable, hbody]

/-- The program of every turn has its methods under their keys. -/
theorem keyed_turn (hp : p.Keyed) (bodies : List Body) (i : Nat) : (turn bodies p i).Keyed :=
  (served_lowerAll hp (bodies.take i)).steps.keyed hp

/-- The errors in the log are those of the slots, in order. -/
theorem errs_lowerAll (bodies : List Body) (p : Program) :
    p.Errs ((bodies.zip (lowerAll bodies p).1).filterMap skipped?) (lowerAll bodies p).2 := by
  induction bodies generalizing p with
  | nil => exact ⟨[], (List.append_nil _).symm, rfl⟩
  | cons body rest ih =>
    have hall := (errs_slot body p).trans (ih (slot body p).2)
    rw [lowerAll_cons, List.zip_cons_cons, List.filterMap_cons]
    cases hskipped : skipped? (body, (slot body p).1) <;> simpa [hskipped] using hall

/-- Batches keep books. -/
theorem lowerAll_keepsBooks (hp : p.Reachable) (bodies : List Body) :
    KeepsBooks bodies p (lowerAll bodies p).1 (lowerAll bodies p).2 := by
  have hkeyed := hp.keyed
  have hslot {i : Nat} {body : Body} (hbody : bodies[i]? = some body) :=
    slot_wins (keyed_turn hkeyed bodies i) body
  have hwins : ∀ i body, bodies[i]? = some body → ((∃ id, (lowerAll bodies p).1[i]? = some (.ok id)) ↔
      Lowerable bodies p i body ∧ p.Vacant body.method.text ∧
        ∀ j other, j < i → Lowerable bodies p j other → other.method.text ≠ body.method.text) := by
    intro i body hbody
    rw [slot_at hbody, Lowerable, and_iff_right hbody, ← vacant_turn]
    simpa using (hslot hbody).1
  refine ⟨length_lowerAll bodies p, hwins, fun i j body other id id' hbody hother hid hid' hsame => ?_,
    fun i body id hbody hid => ?_, fun i body e hlowerable he => ?_, fun i body e r hbody hrun => ?_,
    errs_lowerAll bodies p⟩
  · obtain ⟨hlowers, -, hfirst⟩ := (hwins i body hbody).mp ⟨id, hid⟩
    obtain ⟨hlowers', -, hfirst'⟩ := (hwins j other hother).mp ⟨id', hid'⟩
    rcases Nat.lt_trichotomy i j with hlt | heq | hlt
    · exact absurd hsame (hfirst' i body hlt hlowers)
    · exact heq
    · exact absurd hsame.symm (hfirst j other hlt hlowers')
  · refine (served_lowerAll hkeyed bodies).attached body id (List.mem_filterMap.mpr ⟨(body, .ok id), ?_, rfl⟩)
    exact List.mem_of_getElem? (List.getElem?_zip_eq_some.mpr ⟨hbody, hid⟩)
  · obtain ⟨hbody, hlowers⟩ := hlowerable
    rw [slot_at hbody] at he
    exact (hslot hbody).2.1 e hlowers (Option.some.inj he)
  · rw [slot_at hbody, (hslot hbody).2.2 e r hrun]

/-- A body of the signature of `failingExample` that returns at once. -/
def retriedExample : Body := { failingExample with code := #[⟨.retVoid, .unknown⟩] }

/-- The first body of a signature fails and does not stand in the way of the second one, but the third one
comes too late. -/
theorem lowerAll_keepsBooks_retried : (Program.new .standard).Reachable ∧
    KeepsBooks [failingExample, retriedExample, retriedExample] (.new .standard)
      (lowerAll [failingExample, retriedExample, retriedExample] (.new .standard)).1
      (lowerAll [failingExample, retriedExample, retriedExample] (.new .standard)).2 ∧
    (lowerAll [failingExample, retriedExample, retriedExample] (.new .standard)).1.map Except.isOk =
      [false, true, false] :=
  ⟨.new .standard, lowerAll_keepsBooks (.new .standard) _, by decide +kernel⟩

end Session

end GuardedFlow
