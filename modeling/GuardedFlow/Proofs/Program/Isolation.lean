import Mathlib.Data.List.Forall2
import GuardedFlow.Proofs.Lowering.Agreement

/-!
# Failures in a batch

A body of a batch that fails is skipped, but the program keeps what was asked for before the failure.
Resolved methods, array classes and numbers make no difference to the other bodies. Globals do: a body
that asks for a global fails if the failing body asked for it under another type.
`lowerAll_isolates_iff` says that the others are unaffected exactly if this does not happen.
-/

namespace GuardedFlow

/-- A number is found for one key only. -/
theorem Table.find?_inj {κ α : Type} [BEq κ] [LawfulBEq κ] {t : Table κ α} {key key' : κ} {id : Nat}
    (h : t.find? key = some id) (h' : t.find? key' = some id) : key = key' := by
  obtain ⟨_, hkey, -⟩ := Array.findIdx?_eq_some_iff_getElem.mp h
  obtain ⟨_, hkey', -⟩ := Array.findIdx?_eq_some_iff_getElem.mp h'
  exact (beq_iff_eq.mp hkey).symm.trans (beq_iff_eq.mp hkey')

namespace Program

/-- No name stands for globals of different types in two programs. -/
def Agrees (p q : Program) : Prop :=
  ∀ name ty ty', p.globalTy name = some ty → q.globalTy name = some ty' → ty = ty'

variable {p q : Program} {key : String} {id : Nat} {m : Method} {flow : Flow}

/-- The method under the number of a key. -/
theorem standing_of_find? (h : p.methods.find? key = some id) :
    ∃ m, p.method? id = some m ∧ p.standing key = (m.signature, m.hasBody) := by
  obtain ⟨m, hm⟩ := Table.get?_of_find? h
  exact ⟨m, hm, by simp only [standing, Table.lookup, h, Option.bind_some, hm]⟩

/-- A body is attached to a method unless it has one. -/
theorem install_eq (hm : p.method? id = some m) (flow : Flow) :
    p.install id flow = if m.hasBody then .error (.alreadyLowered m.signature)
      else .ok { p with methods := p.methods.modify id ({ · with flow := some flow }) } := by
  simp only [install, hm]

/-- The method that got a body, and what is told of the methods then. -/
theorem standing_install (h : p.methods.find? key = some id) (hm : p.method? id = some m)
    (flow : Flow) :
    (p.methods.modify id ({ · with flow := some flow })).get? id = some { m with flow := some flow } ∧
      standing { p with methods := p.methods.modify id ({ · with flow := some flow }) } =
        Function.update p.standing key (m.signature, true) := by
  have hget (other : Nat) : (p.methods.modify id ({ · with flow := some flow })).get? other =
      (p.methods.get? other).map fun m => if id = other then { m with flow := some flow } else m :=
    Table.get?_modify ..
  have hself : (p.methods.modify id ({ · with flow := some flow })).get? id =
      some { m with flow := some flow } := by
    rw [hget, show p.methods.get? id = some m from hm, Option.map_some, if_pos rfl]
  refine ⟨hself, ?_⟩
  funext other
  unfold standing
  rw [Table.lookup, Table.find?_modify]
  by_cases hother : other = key
  · subst hother
    rw [h, Option.bind_some, hself, Function.update_self]
    rfl
  · rw [Function.update_of_ne hother, Table.lookup]
    cases hfind : p.methods.find? other with
    | none => rfl
    | some id' =>
      have hid : id ≠ id' := fun hid => hother (Table.find?_inj hfind (hid ▸ h))
      rw [Option.bind_some, Option.bind_some, hget]
      cases p.methods.get? id' <;> simp [hid]

end Program

/-- Two bodies end alike in two programs: both fail with the same error, or both are lowered, into
methods of the same signature and to graphs that are printed and drawn alike. -/
inductive SameOutcome (p q : Program) : Except Error Nat → Except Error Nat → Prop where
  | failed (e : Error) : SameOutcome p q (.error e) (.error e)
  | lowered {id id' : Nat} {m m' : Method} {flow flow' : Flow} (hm : p.method? id = some m)
      (hm' : q.method? id' = some m') (hflow : m.flow = some flow) (hflow' : m'.flow = some flow')
      (hsignature : m.signature = m'.signature) (htext : flow.text = flow'.text)
      (hdot : ∀ title, flow.dot title = flow'.dot title) : SameOutcome p q (.ok id) (.ok id')

namespace SameOutcome

variable {p q p' q' : Program} {o o' : Except Error Nat}

/-- Outcomes that are the same are so the other way round. -/
theorem symm (h : SameOutcome p q o o') : SameOutcome q p o' o := by
  cases h with
  | failed e => exact .failed e
  | lowered hm hm' hflow hflow' hsignature htext hdot =>
    exact .lowered hm' hm hflow' hflow hsignature.symm htext.symm fun title => (hdot title).symm

/-- Bodies stay as they are when programs grow. -/
theorem grow (h : SameOutcome p q o o') (hp : p.Grows p') (hq : q.Grows q') :
    SameOutcome p' q' o o' := by
  cases h with
  | failed e => exact .failed e
  | lowered hm hm' hflow hflow' hsignature htext hdot =>
    obtain ⟨n, hn, hsig, hbody⟩ := hp.methods _ _ hm
    obtain ⟨n', hn', hsig', hbody'⟩ := hq.methods _ _ hm'
    refine .lowered hn hn' (hbody _ hflow) (hbody' _ hflow') ?_ htext hdot
    simpa only [Method.signature, hsig, hsig'] using hsignature

end SameOutcome

namespace Session

variable {odd : String → Prop} {p q : Program}

/-- What becomes of one body of a batch, and of the program. -/
def slot (body : Body) (p : Program) : Except Error Nat × Program :=
  match lowerByTransfers body p with
  | .ok id q => (.ok id, q)
  | .error e q =>
    (.error e, q.report {
      severity := .error
      category := .general
      message := s!"method skipped: {e}"
      method := body.method.text })

/-- A batch is lowered slot by slot. -/
theorem lowerAll_cons (body : Body) (rest : List Body) (p : Program) :
    lowerAll (body :: rest) p = ((slot body p).1 :: (lowerAll rest (slot body p).2).1,
      (lowerAll rest (slot body p).2).2) := by
  cases h : lowerByTransfers body p with
  | ok id q => simp only [lowerAll, slot, h]
  | error e q => simp only [lowerAll, slot, h]

/-- A batch in two parts. -/
theorem lowerAll_append (first second : List Body) (p : Program) :
    lowerAll (first ++ second) p = ((lowerAll first p).1 ++ (lowerAll second (lowerAll first p).2).1,
      (lowerAll second (lowerAll first p).2).2) := by
  induction first generalizing p with
  | nil => rfl
  | cons body rest ih =>
    rw [List.cons_append, lowerAll_cons, ih, lowerAll_cons]
    rfl

/-- A batch has a slot for each body. -/
theorem length_lowerAll (bodies : List Body) (p : Program) :
    (lowerAll bodies p).1.length = bodies.length := by
  induction bodies generalizing p with
  | nil => rfl
  | cons body rest ih => rw [lowerAll_cons, List.length_cons, List.length_cons, ih]

/-- Lowering a body resolves methods, but gives none a body. -/
theorem flowOf_standing (body : Body) (oracle : PredecessorOracle) (p : Program) :
    (stateAfter (flowOf body oracle p)).standing = p.standing := by
  have hstream := ((Lower.Keeps.stream oracle body).continues (startOf body p)).standing
  rw [flowOf_run]
  cases h : Lower.stream oracle body (startOf body p) with
  | ok _ t =>
    rw [h] at hstream
    exact hstream
  | error e t =>
    rw [h] at hstream
    exact hstream

/-- A body that fails by a conflict of globals asked for a global that the program then has under
another type. -/
theorem flowOf_conflict {body : Body} {oracle : PredecessorOracle} {name : String} {ty ty' : Ty}
    (h : flowOf body oracle p = .error (.lowering (.globalConflict name ty ty') .outside) q) :
    q.globalTy name = some ty' ∧ ty' ≠ ty := by
  rw [flowOf_run] at h
  cases hstream : Lower.stream oracle body (startOf body p) with
  | ok _ t =>
    rw [hstream] at h
    cases h
  | error e t =>
    rw [hstream] at h
    obtain ⟨he, rfl⟩ := EStateM.Result.error.inj h
    cases ((Lower.Keeps.stream oracle body).error hstream).2 with
    | check _ hfault =>
      injection he with hconflict
      rw [hconflict] at hfault
      cases hfault
    | @conflict _ _ v hv hty =>
      injection he with hconflict
      obtain ⟨rfl, rfl, rfl⟩ := Fault.globalConflict.inj hconflict
      exact ⟨by simp [Program.globalTy, hv], hty⟩
    | graph => cases he

/-- What becomes of a body, given the end of its lowering and what the program told of its method
before. -/
inductive Settles (standing : String → String × Bool) (key : String) :
    EStateM.Result Error Program Flow → Except Error Nat × Program → Prop where
  /-- The body could not be lowered. -/
  | failed {e : Error} {q r : Program} (hgrows : q.Grows r) (hglobals : r.globals = q.globals)
      (hstanding : r.standing = standing) : Settles standing key (.error e q) (.error e, r)
  /-- The method has a body already. -/
  | refused {flow : Flow} {q r : Program} (hgrows : q.Grows r) (hglobals : r.globals = q.globals)
      (hstanding : r.standing = standing) (hbody : (standing key).2 = true) :
    Settles standing key (.ok flow q) (.error (.alreadyLowered (standing key).1), r)
  /-- The method gets the lowered body. -/
  | installed {flow : Flow} {q r : Program} {id : Nat} {m : Method} (hgrows : q.Grows r)
      (hglobals : r.globals = q.globals) (hbody : (standing key).2 = false)
      (hstanding : r.standing = Function.update standing key ((standing key).1, true))
      (hm : r.method? id = some m) (hsignature : m.signature = (standing key).1)
      (hflow : m.flow = some flow) : Settles standing key (.ok flow q) (.ok id, r)

/-- The end of the lowering of a body. -/
def outcome : EStateM.Result Error Program Nat → Except Error Nat × Program
  | .ok id p => (.ok id, p)
  | .error e p => (.error e, p)

/-- Every body settles in one of these ways. -/
theorem lower_settles (body : Body) (oracle : PredecessorOracle) (p : Program) :
    Settles p.standing body.method.text (flowOf body oracle (p.resolve body.method).2)
      (outcome (lower body oracle p)) := by
  have hstanding := (flowOf_standing body oracle (p.resolve body.method).2).trans
    (p.standing_resolve body.method)
  have hgrows := growing_flowOf body oracle (p.resolve body.method).2
  have hknown : (p.resolve body.method).2.methods.find? body.method.text =
      some (p.resolve body.method).1 := Table.find?_intern_self ..
  rw [lower_run]
  cases hrun : flowOf body oracle (p.resolve body.method).2 with
  | error e q =>
    rw [hrun] at hstanding
    exact .failed (.refl q) rfl hstanding
  | ok flow q =>
    rw [hrun] at hstanding hgrows
    have hfind := hgrows.keys _ _ hknown
    obtain ⟨m, hm, htold⟩ := Program.standing_of_find? hfind
    rw [show q.standing = p.standing from hstanding] at htold
    have hsignature : m.signature = (p.standing body.method.text).1 := by rw [htold]
    have hinstall := Program.install_eq hm flow
    dsimp only
    by_cases hbody : m.hasBody
    · rw [if_pos hbody] at hinstall
      rw [hinstall, hsignature]
      exact .refused (.refl q) rfl hstanding (by rw [htold, hbody])
    · rw [if_neg hbody] at hinstall
      obtain ⟨hmethod, hupdate⟩ := Program.standing_install hfind hm flow
      rw [hinstall]
      refine .installed (Program.grows_install hinstall) rfl (by rw [htold]; simpa using hbody) ?_
        hmethod hsignature rfl
      rw [← hsignature, ← show q.standing = p.standing from hstanding]
      exact hupdate

/-- The report of a failure does not matter. -/
theorem Settles.report {standing : String → String × Bool} {key : String}
    {run : EStateM.Result Error Program Flow} {e : Error} (h : Settles standing key run (.error e, p))
    (d : Diagnostic) : Settles standing key run (.error e, p.report d) := by
  cases h with
  | failed hgrows hglobals hstanding =>
    exact .failed (hgrows.trans (p.grows_report d)) hglobals hstanding
  | refused hgrows hglobals hstanding hbody =>
    exact .refused (hgrows.trans (p.grows_report d)) hglobals hstanding hbody

/-- Every body of a batch settles in one of these ways. -/
theorem slot_settles (body : Body) (p : Program) : Settles p.standing body.method.text
    (flowOf body body.predecessorOracle (p.resolve body.method).2) (slot body p) := by
  have hsettles := lower_settles body body.predecessorOracle p
  unfold slot lowerByTransfers
  cases hrun : lower body body.predecessorOracle p with
  | ok id q =>
    rw [hrun] at hsettles
    exact hsettles
  | error e q =>
    rw [hrun] at hsettles
    exact hsettles.report _

/-- A body that fails leaves the methods as they were. -/
theorem slot_error_standing {body : Body} {e : Error} (h : (slot body p).1 = .error e) :
    (slot body p).2.standing = p.standing := by
  have hsettles := slot_settles body p
  generalize slot body p = o at hsettles h
  generalize flowOf body _ _ = r at hsettles
  cases hsettles with
  | failed _ _ hstanding => exact hstanding
  | refused _ _ hstanding _ => exact hstanding
  | installed => cases h

/-- A body only adds to the program. -/
theorem grows_slot (body : Body) (p : Program) : p.Grows (slot body p).2 := by
  have hgrows := grows_lowerAll [body] p
  rw [lowerAll_cons] at hgrows
  exact hgrows

/-- Two bodies end differently, whatever comes later, because of a clash. -/
structure Differ (odd : String → Prop) (p q : Program) (o o' : Except Error Nat) : Prop where
  outcomes : ∀ p' q', ¬ SameOutcome p' q' o o'
  clash : ∃ name ty ty', Program.Clash odd p q name ty ty'

/-- Outcomes that differ do so the other way round. -/
theorem Differ.symm {o o' : Except Error Nat} (h : Differ odd p q o o') : Differ odd q p o' o where
  outcomes p' q' hsame := h.outcomes q' p' hsame.symm
  clash :=
    let ⟨name, ty, ty', hclash⟩ := h.clash
    ⟨name, ty', ty, hclash.symm⟩

/-- A body that fails by a clash does not fail so on the other side. -/
theorem differ_of_clash {body : Body} {oracle : PredecessorOracle} {name : String} {ty ty' : Ty}
    {r : Program} {o o' : Except Error Nat × Program} {standing standing' : String → String × Bool}
    {key : String}
    (hclash : r.Clash odd (stateAfter (flowOf body oracle q)) name ty' ty)
    (ho : Settles standing key (.error (.lowering (.globalConflict name ty ty') .outside) r) o)
    (ho' : Settles standing' key (flowOf body oracle q) o') : Differ odd o.2 o'.2 o.1 o'.1 := by
  cases ho with
  | failed hgrows _ _ =>
    cases hrun : flowOf body oracle q with
    | error e q' =>
      rw [hrun] at hclash ho'
      cases ho' with
      | failed hgrows' _ _ =>
        refine ⟨fun _ _ hsame => ?_, name, ty', ty, hclash.grow hgrows hgrows'⟩
        cases hsame
        have hty := (flowOf_conflict hrun).1
        rw [show q'.globalTy name = some ty from hclash.right] at hty
        exact hclash.differ (Option.some.inj hty).symm
    | ok flow q' =>
      rw [hrun] at hclash ho'
      cases ho' with
      | refused hgrows' _ _ _ =>
        refine ⟨fun _ _ hsame => ?_, name, ty', ty, hclash.grow hgrows hgrows'⟩
        cases hsame
      | installed hgrows' _ _ _ _ _ _ =>
        refine ⟨fun _ _ hsame => ?_, name, ty', ty, hclash.grow hgrows hgrows'⟩
        cases hsame

/-- A body that was lowered alike is installed or refused alike. -/
theorem same_of_settles {standing : String → String × Bool} {key : String} {flow flow' : Flow}
    {number number' : Var → Nat} {o o' : Except Error Nat × Program}
    (hflow : flow.renumber number = flow'.renumber number') (h : p.Akin (.both odd) q)
    (ho : Settles standing key (.ok flow p) o) (ho' : Settles standing key (.ok flow' q) o') :
    SameOutcome o.2 o'.2 o.1 o'.1 ∧ o.2.Akin (.both odd) o'.2 ∧ o.2.standing = o'.2.standing := by
  cases ho with
  | refused hgrows hglobals hstanding hbody =>
    cases ho' with
    | refused hgrows' hglobals' hstanding' _ =>
      exact ⟨.failed _, h.congr hgrows hglobals hgrows' hglobals', hstanding.trans hstanding'.symm⟩
    | installed _ _ hnone _ _ _ _ =>
      rw [hbody] at hnone
      cases hnone
  | installed hgrows hglobals hnone hstanding hm hsignature hbody =>
    cases ho' with
    | refused _ _ _ hsome =>
      rw [hnone] at hsome
      cases hsome
    | installed hgrows' hglobals' _ hstanding' hm' hsignature' hbody' =>
      refine ⟨.lowered hm hm' hbody hbody' (hsignature.trans hsignature'.symm) ?_ fun title => ?_,
        h.congr hgrows hglobals hgrows' hglobals', hstanding.trans hstanding'.symm⟩
      · rw [← flow.text_renumber, hflow, flow'.text_renumber]
      · rw [← flow.dot_renumber, hflow, flow'.dot_renumber]

/-- A body ends alike in two akin programs that tell the same of their methods, and the programs stay
so, or it ends differently because of a clash. -/
theorem slot_akin (h : p.Akin (.both odd) q) (hstanding : p.standing = q.standing) (body : Body) :
    (SameOutcome (slot body p).2 (slot body q).2 (slot body p).1 (slot body q).1 ∧
      (slot body p).2.Akin (.both odd) (slot body q).2 ∧
      (slot body p).2.standing = (slot body q).2.standing) ∨
    Differ odd (slot body p).2 (slot body q).2 (slot body p).1 (slot body q).1 := by
  have hresolved : (p.resolve body.method).2.Akin (.both odd) (q.resolve body.method).2 :=
    h.congr (p.grows_resolve _) rfl (q.grows_resolve _) rfl
  have hruns := flowOf_akin hresolved body body.predecessorOracle (locals_startOf body _ _)
  have ho := slot_settles body p
  have ho' := slot_settles body q
  rw [← hstanding] at ho'
  generalize hp : flowOf body body.predecessorOracle (p.resolve body.method).2 = r at hruns ho
  generalize hq : flowOf body body.predecessorOracle (q.resolve body.method).2 = r' at hruns ho'
  cases hruns with
  | answers hflow hakin => exact .inl (same_of_settles hflow hakin ho ho')
  | fails hakin =>
    generalize slot body p = o at ho
    generalize slot body q = o' at ho'
    cases ho with
    | failed hgrows hglobals hp =>
      cases ho' with
      | failed hgrows' hglobals' hq =>
        exact .inl ⟨.failed _, hakin.congr hgrows hglobals hgrows' hglobals', hp.trans hq.symm⟩
  | left hclash =>
    subst hq
    exact .inr (differ_of_clash hclash ho ho')
  | right hclash =>
    subst hp
    exact .inr (differ_of_clash hclash.symm ho' ho).symm

/-- A batch ends alike in two akin programs that tell the same of their methods, and the programs stay
akin, or some outcomes differ because of a clash. -/
theorem lowerAll_akin (h : p.Akin (.both odd) q) (hstanding : p.standing = q.standing) (bodies : List Body) :
    (List.Forall₂ (SameOutcome (lowerAll bodies p).2 (lowerAll bodies q).2) (lowerAll bodies p).1
        (lowerAll bodies q).1 ∧ (lowerAll bodies p).2.Akin (.both odd) (lowerAll bodies q).2) ∨
    (∀ p' q', ¬ List.Forall₂ (SameOutcome p' q') (lowerAll bodies p).1 (lowerAll bodies q).1) ∧
      ∃ name ty ty', Program.Clash odd (lowerAll bodies p).2 (lowerAll bodies q).2 name ty ty' := by
  induction bodies generalizing p q with
  | nil => exact .inl ⟨.nil, h⟩
  | cons body rest ih =>
    have hgrows := grows_lowerAll rest (slot body p).2
    have hgrows' := grows_lowerAll rest (slot body q).2
    rw [lowerAll_cons, lowerAll_cons]
    rcases slot_akin h hstanding body with ⟨hsame, hakin, hstanding⟩ | ⟨hdiffer, name, ty, ty', hclash⟩
    · rcases ih hakin hstanding with ⟨hrest, hakin⟩ | ⟨hrest, hclash⟩
      · exact .inl ⟨.cons (hsame.grow hgrows hgrows') hrest, hakin⟩
      · refine .inr ⟨fun p' q' hall => ?_, hclash⟩
        exact hrest p' q' (List.forall₂_cons.mp hall).2
    · refine .inr ⟨fun p' q' hall => ?_, name, ty, ty', hclash.grow hgrows hgrows'⟩
      exact hdiffer p' q' (List.forall₂_cons.mp hall).1

/-- The slots of a batch stay what they are. -/
theorem lowerAll_same (bodies : List Body) (p : Program) {p' q' : Program}
    (hp : (lowerAll bodies p).2.Grows p') (hq : (lowerAll bodies p).2.Grows q') :
    List.Forall₂ (SameOutcome p' q') (lowerAll bodies p).1 (lowerAll bodies p).1 := by
  have hself : p.Akin (.both fun _ => True) p := .of_grows (.refl p) fun _ _ => trivial
  rcases lowerAll_akin hself rfl bodies with ⟨hsame, -⟩ | ⟨-, name, ty, ty', hclash⟩
  · exact hsame.imp fun o o' h => h.grow hp hq
  · have hty := hclash.left.symm.trans hclash.right
    exact absurd (Option.some.inj hty) hclash.differ

/-- After a body that fails, a batch goes on as without that body exactly if no global that is there
after the failure gets another type without it. -/
theorem lowerAll_after_failure {body : Body} {e : Error} (h : (slot body p).1 = .error e)
    (rest : List Body) :
    List.Forall₂ (SameOutcome (lowerAll rest (slot body p).2).2 (lowerAll rest p).2)
        (lowerAll rest (slot body p).2).1 (lowerAll rest p).1 ↔
      (slot body p).2.Agrees (lowerAll rest p).2 := by
  have hakin : (slot body p).2.Akin (.both fun name => (slot body p).2.globalTy name ≠ none) p :=
    .of_grows (grows_slot body p) fun _ => id
  have hgrows := grows_lowerAll rest (slot body p).2
  have hends := lowerAll_akin hakin (slot_error_standing h) rest
  constructor
  · intro hsame name ty ty' hty hty'
    rcases hends with ⟨-, hend⟩ | ⟨hdiffer, -⟩
    · exact hend.globalTy (hgrows.globalTy hty) hty'
    · exact absurd hsame (hdiffer _ _)
  · intro hagrees
    rcases hends with ⟨hsame, -⟩ | ⟨-, name, ty, ty', hclash⟩
    · exact hsame
    · -- the odd name of a clash was there after the failure, under the type that it has at the end
      obtain ⟨ty₀, hty₀⟩ := Option.ne_none_iff_exists'.mp hclash.odd
      have hend := hgrows.globalTy hty₀
      rw [hclash.left] at hend
      cases hend
      exact absurd (hagrees name ty ty' hty₀ hclash.right) hclash.differ

/-- A list around one of its entries. -/
theorem exists_split {α : Type} {l : List α} {i : Nat} {a : α} (h : l[i]? = some a) :
    ∃ before rest, l = before ++ a :: rest ∧ before.length = i := by
  obtain ⟨hi, rfl⟩ := List.getElem?_eq_some_iff.mp h
  refine ⟨l.take i, l.drop (i + 1), ?_, List.length_take_of_le (Nat.le_of_lt hi)⟩
  rw [← List.drop_eq_getElem_cons hi, List.take_append_drop]

/-- The bodies of a batch but one that fails end as they do without that one exactly if no global that
is there after its failure gets another type without it. -/
theorem lowerAll_isolates_iff {bodies : List Body} {i : Nat} {e : Error}
    (h : (lowerAll bodies p).1[i]? = some (.error e)) :
    List.Forall₂ (SameOutcome (lowerAll bodies p).2 (lowerAll (bodies.eraseIdx i) p).2)
        ((lowerAll bodies p).1.eraseIdx i) (lowerAll (bodies.eraseIdx i) p).1 ↔
      (lowerAll (bodies.take (i + 1)) p).2.Agrees (lowerAll (bodies.eraseIdx i) p).2 := by
  obtain ⟨before, body, rest, rfl, rfl⟩ :
      ∃ before body rest, bodies = before ++ body :: rest ∧ i = before.length := by
    have hi : i < bodies.length := by
      rw [← length_lowerAll bodies p]
      exact (List.getElem?_eq_some_iff.mp h).1
    obtain ⟨before, rest, hsplit, hlength⟩ := exists_split (List.getElem?_eq_getElem hi)
    exact ⟨before, bodies[i], rest, hsplit, hlength.symm⟩
  have herase {α : Type} (front back : List α) (a : α) :
      (front ++ a :: back).eraseIdx front.length = front ++ back := by
    rw [List.eraseIdx_append_of_length_le (Nat.le_refl _), Nat.sub_self, List.eraseIdx_cons_zero]
  have hlength := length_lowerAll before p
  have htake : (before ++ body :: rest).take (before.length + 1) = before ++ [body] := by
    rw [List.take_length_add_append]
    rfl
  have hfailed : (slot body (lowerAll before p).2).1 = .error e := by
    rw [lowerAll_append, lowerAll_cons, ← hlength, List.getElem?_append_right (Nat.le_refl _),
      Nat.sub_self] at h
    exact Option.some.inj h
  have hafter := lowerAll_after_failure hfailed rest
  rw [herase, htake, lowerAll_append, lowerAll_append, lowerAll_append, lowerAll_cons, ← hlength, herase]
  refine Iff.trans ⟨fun hall => ?_, fun hrest => ?_⟩ hafter
  · have hdrop := List.forall₂_drop_append _ _ _ hall
    rwa [List.drop_left] at hdrop
  · refine List.rel_append (lowerAll_same before p ?_ ?_) hrest
    · exact (grows_slot body _).trans (grows_lowerAll rest _)
    · exact grows_lowerAll rest _

/-- A body that reads a static field as a number and fails then. -/
def failingExample : Body where
  method := ⟨"Batch", "first", [], .prim .void⟩
  isStatic := true
  isSynchronized := false
  locals := #[⟨"x", .int⟩]
  code := #[⟨.assign (.slot 0) (.staticField ⟨"S", "f", .int⟩), .unknown⟩, ⟨.throw (.const .null), .unknown⟩]

/-- A body that reads the same field as a wider number. -/
def affectedExample : Body where
  method := ⟨"Batch", "second", [], .prim .void⟩
  isStatic := true
  isSynchronized := false
  locals := #[⟨"y", .prim .long⟩]
  code := #[⟨.assign (.slot 0) (.staticField ⟨"S", "f", .prim .long⟩), .unknown⟩, ⟨.retVoid, .unknown⟩]

/-- The failure of the first body changes what becomes of the second one. -/
theorem lowerAll_failure_affects : ∃ e,
    (lowerAll [failingExample, affectedExample] (.new .standard)).1[0]? = some (.error e) ∧
      ¬ List.Forall₂ (SameOutcome (lowerAll [failingExample, affectedExample] (.new .standard)).2
          (lowerAll [affectedExample] (.new .standard)).2)
        ((lowerAll [failingExample, affectedExample] (.new .standard)).1.eraseIdx 0)
        (lowerAll [affectedExample] (.new .standard)).1 := by
  have hfails : (lowerAll [failingExample, affectedExample] (.new .standard)).1[0]?.map Except.isOk =
      some false := by decide +kernel
  obtain ⟨o, ho, hfailed⟩ := Option.map_eq_some_iff.mp hfails
  obtain ⟨e, rfl⟩ : ∃ e, o = .error e := by
    cases o with
    | error e => exact ⟨e, rfl⟩
    | ok id => cases hfailed
  refine ⟨e, ho, fun hsame => ?_⟩
  have hagrees := (lowerAll_isolates_iff ho).mp hsame "S.f" .int (.prim .long) (by decide +kernel)
    (by decide +kernel)
  cases hagrees

end Session

end GuardedFlow
