import GuardedFlow.Proofs.Lowering.Places
import GuardedFlow.Proofs.Program.Isolation

/-!
# Batches in other orders

What a body of a batch becomes could depend on the bodies before it: they resolve methods, use up numbers
and declare globals, also if they fail. But only the types of globals matter. If no request of a batch
is refused for the type of a global, then all globals that can be declared before any body, in whatever
order, have the types that they have in the end. So every body ends as it does in the given order:
`Session.lowerAll_perm`.
-/

namespace GuardedFlow

namespace Program

variable {p q r : Program}

/-- Every global of a program is a global of another one, under the same type. -/
def Within (p q : Program) : Prop := ∀ name ty, p.globalTy name = some ty → q.globalTy name = some ty

/-- A program lies within what it grows into. -/
theorem Grows.within (h : p.Grows q) : p.Within q := fun _ _ => h.globalTy

/-- What lies within a program lies within what that one lies within. -/
theorem Within.trans (hpq : p.Within q) (hqr : q.Within r) : p.Within r := fun name ty h =>
  hqr name ty (hpq name ty h)

/-- What programs have as globals decides whether one is within another. -/
theorem Within.of_globals (h : p.Within r) (hglobals : q.globals = p.globals) : q.Within r :=
  fun name ty hty => h name ty (by rwa [globalTy, ← hglobals])

/-- Two programs that have grown from one, with globals of the same types as far as both have them. -/
theorem Akin.of_within {sides : Sides} {base all : Program} (hbase : base.Named) (hp : base.Grows p)
    (hq : base.Grows q) (hpall : p.Within all) (hqall : q.Within all)
    (hleft : ∀ name, q.globalTy name = none → sides.left name)
    (hright : ∀ name, q.globalTy name ≠ none → sides.right name) : p.Akin sides q where
  config := hp.config.trans hq.config.symm
  arrays element := (hp.arrays element).trans (hq.arrays element).symm
  globals name := by
    have hpnamed := hp.named hbase name
    have hqnamed := hq.named hbase name
    cases hv : p.globals.lookup name with
    | none =>
      cases hw : q.globals.lookup name with
      | none => exact .neither
      | some w => exact .right (hright name (by simp [Program.globalTy, hw])) (hqnamed w hw)
    | some v =>
      cases hw : q.globals.lookup name with
      | none => exact .left (hleft name (by simp [Program.globalTy, hw])) (hpnamed v hv)
      | some w =>
        have hty : some v.ty = some w.ty :=
          (hpall name v.ty (by simp [Program.globalTy, hv])).symm.trans
            (hqall name w.ty (by simp [Program.globalTy, hw]))
        obtain ⟨hvname, hvrole⟩ := hpnamed v hv
        obtain ⟨hwname, hwrole⟩ := hqnamed w hw
        obtain ⟨id, _, _, _⟩ := v
        obtain ⟨id', _, _, _⟩ := w
        cases hvname
        cases hwname
        cases hvrole
        cases hwrole
        cases hty
        exact .both (sides.alike.renumber _ _ _ _ (by simp))

/-- A program has globals of the same types as one that it is akin to, but for its odd ones. -/
theorem Akin.within {sides : Sides} {all : Program} (h : p.Akin sides q) (hp : p.Within all)
    (hright : ∀ name ty, sides.right name → q.globalTy name = some ty → all.globalTy name = some ty) :
    q.Within all := by
  intro name ty hty
  obtain ⟨w, hw, rfl⟩ := Option.map_eq_some_iff.mp hty
  have hglobal := h.globals name
  rw [hw] at hglobal
  cases hv : p.globals.lookup name with
  | some v =>
    rw [hv] at hglobal
    cases hglobal with
    | both hvw => exact hp name w.ty (by simp [Program.globalTy, hv, Var.ty_of_renumber hvw])
  | none =>
    rw [hv] at hglobal
    cases hglobal with
    | right hodd _ => exact hright name w.ty hodd hty

end Program

/-- Two bodies have the same outcome in two programs: both fail with the same error, or both are lowered,
into methods of the same signature and to graphs that are the same up to the identity of variables. -/
inductive SameEnd (p q : Program) : Except Error Nat → Except Error Nat → Prop where
  | failed (e : Error) : SameEnd p q (.error e) (.error e)
  | lowered {id id' : Nat} {m m' : Method} {flow flow' : Flow} (hm : p.method? id = some m)
      (hm' : q.method? id' = some m') (hflow : m.flow = some flow) (hflow' : m'.flow = some flow')
      (hsignature : m.signature = m'.signature) (hplace : flow.byPlace = flow'.byPlace) :
    SameEnd p q (.ok id) (.ok id')

/-- Bodies stay as they are when programs grow. -/
theorem SameEnd.grow {p q p' q' : Program} {o o' : Except Error Nat} (h : SameEnd p q o o')
    (hp : p.Grows p') (hq : q.Grows q') : SameEnd p' q' o o' := by
  cases h with
  | failed e => exact .failed e
  | lowered hm hm' hflow hflow' hsignature hplace =>
    obtain ⟨n, hn, hsig, hbody⟩ := hp.methods _ _ hm
    obtain ⟨n', hn', hsig', hbody'⟩ := hq.methods _ _ hm'
    refine .lowered hn hn' (hbody _ hflow) (hbody' _ hflow') ?_ hplace
    simpa only [Method.signature, hsig, hsig'] using hsignature

namespace Session

variable {base p q all : Program} {body : Body}

/-- The refusal of a global for its type. -/
def conflict (name : String) (requested declared : Ty) (site : Site) : Error :=
  .lowering (.globalConflict name requested declared) site

/-- The ends of two lowerings: the same error, or graphs that are the same up to the identity of
variables. -/
inductive SameLowering : EStateM.Result Error Program Flow → EStateM.Result Error Program Flow → Prop where
  | failed (e : Error) (p q : Program) : SameLowering (.error e p) (.error e q)
  | lowered {flow flow' : Flow} (p q : Program) (hplace : flow.byPlace = flow'.byPlace) :
    SameLowering (.ok flow p) (.ok flow' q)

/-- The lowerings of one body in two programs that have grown from one end alike if the globals of both
have the types that they have in some program, and the lowering on the left is not refused a global. -/
theorem flowOf_within (body : Body) (oracle : PredecessorOracle) (hbase : base.Named) (hp : base.Grows p)
    (hq : base.Grows q) (hpall : (stateAfter (flowOf body oracle p)).Within all) (hqall : q.Within all)
    (hclean : ∀ name ty ty' site r, flowOf body oracle p ≠ .error (conflict name ty ty' site) r) :
    SameLowering (flowOf body oracle p) (flowOf body oracle q) ∧
      (stateAfter (flowOf body oracle q)).Within all := by
  have hpgrows := (growing_flowOf body oracle).grows p
  have hqgrows := (growing_flowOf body oracle).grows q
  let sides : Sides := .ofBody body (hp.named hbase) (hq.named hbase) (fun name => q.globalTy name = none)
    fun name => q.globalTy name ≠ none
  have hakin : p.Akin sides q := .of_within hbase hp hq (hpgrows.within.trans hpall) hqall
    (fun _ => id) fun _ => id
  have hruns := flowOf_akin hakin body oracle (places_startOf body (hp.named hbase) (hq.named hbase))
  generalize hprun : flowOf body oracle p = run at *
  generalize hqrun : flowOf body oracle q = run' at *
  have hend {s t : Program} (hst : s.Akin sides t) (hs : s.Within all) (ht : q.Grows t) : t.Within all :=
    hst.within hs fun name ty hname hty => by
      obtain ⟨ty', hty'⟩ := Option.ne_none_iff_exists'.mp hname
      cases (ht.globalTy hty').symm.trans hty
      exact hqall name ty hty'
  cases hruns with
  | answers hflow hst =>
    refine ⟨.lowered _ _ ?_, hend hst hpall hqgrows⟩
    rw [Flow.byPlace, Flow.byPlace, declared_of_flowOf (hp.named hbase) hprun,
      declared_of_flowOf (hq.named hbase) hqrun]
    exact hflow
  | fails hst => exact ⟨.failed _ _ _, hend hst hpall hqgrows⟩
  | left => exact absurd rfl (hclean _ _ _ _ _)
  | right hclash =>
    -- a global that was there before has the same type on both sides
    obtain ⟨ty, hty⟩ := Option.ne_none_iff_exists'.mp hclash.odd
    have hright := hqgrows.globalTy hty
    have hall := (hpall _ _ hclash.left).symm.trans (hqall _ _ hty)
    cases hall
    exact absurd (Option.some.inj (hright.symm.trans hclash.right)) hclash.differ

/-- A body that settles declares the globals that its lowering declared. -/
theorem Settles.globals {standing : String → String × Bool} {key : String}
    {run : EStateM.Result Error Program Flow} {o : Except Error Nat × Program}
    (h : Settles standing key run o) : o.2.globals = (stateAfter run).globals := by
  cases h with
  | failed _ hglobals _ => exact hglobals
  | refused _ hglobals _ _ => exact hglobals
  | installed _ hglobals _ _ _ _ _ => exact hglobals

/-- A body whose method has no body yet settles as its lowering ends. -/
theorem Settles.same {standing standing' : String → String × Bool} {key : String}
    {run run' : EStateM.Result Error Program Flow} {o o' : Except Error Nat × Program}
    (h : Settles standing key run o) (h' : Settles standing' key run' o') (hruns : SameLowering run run')
    (hsame : standing key = standing' key) (hfresh : (standing key).2 = false) :
    SameEnd o.2 o'.2 o.1 o'.1 := by
  cases hruns with
  | failed e _ _ =>
    cases h with
    | failed =>
      cases h' with
      | failed => exact .failed e
  | lowered _ _ hplace =>
    cases h with
    | refused _ _ _ hbody => simp [hfresh] at hbody
    | installed _ _ _ _ hm hsignature hflow =>
      cases h' with
      | refused _ _ _ hbody => simp [← hsame, hfresh] at hbody
      | installed _ _ _ _ hm' hsignature' hflow' =>
        exact .lowered hm hm' hflow hflow' (by rw [hsignature, hsignature', hsame]) hplace

/-- A body ends alike in two programs that have grown from one, under the conditions of `flowOf_within`,
if the method of its signature has no body yet. -/
theorem slot_within (hbase : base.Named) (hp : base.Grows p) (hq : base.Grows q)
    (hpall : (slot body p).2.Within all) (hqall : q.Within all)
    (hclean : ∀ name ty ty' site, (slot body p).1 ≠ .error (conflict name ty ty' site))
    (hsame : p.standing body.method.text = q.standing body.method.text)
    (hfresh : (p.standing body.method.text).2 = false) :
    SameEnd (slot body p).2 (slot body q).2 (slot body p).1 (slot body q).1 ∧
      (slot body q).2.Within all := by
  have hsettles := slot_settles body p
  have hsettles' := slot_settles body q
  obtain ⟨hruns, hwithin⟩ := flowOf_within body body.predecessorOracle hbase
    (hp.trans (p.grows_resolve body.method)) (hq.trans (q.grows_resolve body.method))
    (hpall.of_globals hsettles.globals.symm) (hqall.of_globals rfl) fun name ty ty' site r hrun => by
      rw [hrun] at hsettles
      generalize slot body p = o at hsettles hclean
      cases hsettles with
      | failed => exact hclean name ty ty' site rfl
  exact ⟨hsettles.same hsettles' hruns hsame hfresh, hwithin.of_globals hsettles'.globals⟩

/-- A body touches no method but its own. -/
theorem standing_slot {key : String} (h : body.method.text ≠ key) (p : Program) :
    (slot body p).2.standing key = p.standing key := by
  have hsettles := slot_settles body p
  generalize slot body p = o at hsettles ⊢
  generalize flowOf _ _ _ = run at hsettles
  cases hsettles with
  | failed _ _ hstanding => rw [hstanding]
  | refused _ _ hstanding _ => rw [hstanding]
  | installed _ _ _ hstanding _ _ _ => rw [hstanding, Function.update_of_ne h.symm]

/-- A batch touches no methods but those of its bodies. -/
theorem standing_lowerAll {key : String} {bodies : List Body} (h : key ∉ bodies.map (·.method.text))
    (p : Program) : (lowerAll bodies p).2.standing key = p.standing key := by
  induction bodies generalizing p with
  | nil => rfl
  | cons body rest ih =>
    obtain ⟨hbody, hrest⟩ := not_or.mp (List.mem_cons.not.mp h)
    rw [lowerAll_cons, ih hrest, standing_slot (Ne.symm hbody)]

/-- No body was refused a global for its type. -/
def Unrefused (slots : List (Except Error Nat)) : Prop :=
  ∀ name requested declared site,
    .error (.lowering (.globalConflict name requested declared) site) ∉ slots

/-- A batch of bodies for different methods, none of which has a body yet, in which no body is refused a
global. -/
structure Undisputed (bodies : List Body) (base : Program) : Prop where
  named : base.Named
  distinct : (bodies.map (·.method.text)).Nodup
  fresh : ∀ body ∈ bodies, (base.standing body.method.text).2 = false
  unrefused : Unrefused (lowerAll bodies base).1

/-- It is the turn of a body of a batch in a program. -/
structure Turn (bodies : List Body) (base : Program) (i : Nat) (body : Body) (p : Program) : Prop where
  before : base.Grows p
  standing : p.standing body.method.text = base.standing body.method.text
  slot : (lowerAll bodies base).1[i]? = some (slot body p).1
  after : (Session.slot body p).2.Grows (lowerAll bodies base).2

variable {bodies bodies' : List Body}

/-- The turn of a body in a batch starts after those of the bodies before. -/
theorem turn_of_getElem? (hdistinct : (bodies.map (·.method.text)).Nodup) {i : Nat}
    (h : bodies[i]? = some body) (base : Program) :
    Turn bodies base i body (lowerAll (bodies.take i) base).2 := by
  obtain ⟨before, rest, rfl, rfl⟩ := exists_split h
  rw [List.take_left]
  rw [List.map_append, List.map_cons] at hdistinct
  have hbody : body.method.text ∉ before.map (·.method.text) := fun hmem =>
    (List.nodup_append.mp hdistinct).2.2 _ hmem _ List.mem_cons_self rfl
  refine ⟨grows_lowerAll before base, standing_lowerAll hbody base, ?_, ?_⟩
  · rw [lowerAll_append, lowerAll_cons, List.getElem?_append_right (length_lowerAll before base).le,
      length_lowerAll, Nat.sub_self, List.getElem?_cons_zero]
  · rw [lowerAll_append, lowerAll_cons]
    exact grows_lowerAll rest _

/-- A body of an undisputed batch ends as it does there in all programs that have grown from the same one
within the end of the batch, and these stay within it. -/
theorem Undisputed.slot_same (h : Undisputed bodies base) {i : Nat} (hbody : bodies[i]? = some body)
    (hq : base.Grows q) (hqall : q.Within (lowerAll bodies base).2)
    (hstanding : q.standing body.method.text = base.standing body.method.text) :
    (∃ o, (lowerAll bodies base).1[i]? = some o ∧
      SameEnd (lowerAll bodies base).2 (slot body q).2 o (slot body q).1) ∧
    (slot body q).2.Within (lowerAll bodies base).2 := by
  have hturn := turn_of_getElem? h.distinct hbody base
  obtain ⟨hsame, hwithin⟩ := slot_within h.named hturn.before hq hturn.after.within hqall
    (fun name ty ty' site hslot => h.unrefused name ty ty' site
      (List.mem_of_getElem? (hturn.slot.trans (by rw [hslot]; rfl))))
    (hturn.standing.trans hstanding.symm)
    (by rw [hturn.standing]; exact h.fresh body (List.mem_of_getElem? hbody))
  exact ⟨⟨_, hturn.slot, hsame.grow hturn.after (.refl _)⟩, hwithin⟩

/-- Bodies of an undisputed batch in any order, and maybe not all of them, declare no global that the
batch does not declare. -/
theorem Undisputed.lowerAll_within (h : Undisputed bodies base) {others : List Body}
    (hmem : ∀ body ∈ others, body ∈ bodies) (hdistinct : (others.map (·.method.text)).Nodup)
    (hq : base.Grows q) (hqall : q.Within (lowerAll bodies base).2)
    (hstanding : ∀ body ∈ others, q.standing body.method.text = base.standing body.method.text) :
    (lowerAll others q).2.Within (lowerAll bodies base).2 := by
  induction others generalizing q with
  | nil => exact hqall
  | cons body rest ih =>
    obtain ⟨i, hi⟩ := List.getElem?_of_mem (hmem body List.mem_cons_self)
    obtain ⟨-, hwithin⟩ := h.slot_same hi hq hqall (hstanding body List.mem_cons_self)
    rw [List.map_cons, List.nodup_cons] at hdistinct
    rw [lowerAll_cons]
    refine ih (fun other hother => hmem other (List.mem_cons_of_mem _ hother)) hdistinct.2
      (hq.trans (grows_slot body q)) hwithin fun other hother => ?_
    have hne : body.method.text ≠ other.method.text := fun heq =>
      hdistinct.1 (heq ▸ List.mem_map_of_mem (f := (·.method.text)) hother)
    rw [standing_slot hne, hstanding other (List.mem_cons_of_mem _ hother)]

/-- The bodies of an undisputed batch end alike in every order. -/
theorem Undisputed.same (h : Undisputed bodies base) (hperm : bodies.Perm bodies') {i j : Nat}
    (hi : bodies[i]? = some body) (hj : bodies'[j]? = some body) :
    ∃ o o', (lowerAll bodies base).1[i]? = some o ∧ (lowerAll bodies' base).1[j]? = some o' ∧
      SameEnd (lowerAll bodies base).2 (lowerAll bodies' base).2 o o' := by
  have hdistinct : (bodies'.map (·.method.text)).Nodup :=
    (hperm.map (·.method.text)).nodup_iff.mp h.distinct
  have hturn := turn_of_getElem? hdistinct hj base
  have hwithin : (lowerAll (bodies'.take j) base).2.Within (lowerAll bodies base).2 :=
    h.lowerAll_within (fun other hother => hperm.mem_iff.mpr (List.mem_of_mem_take hother))
      (hdistinct.sublist ((List.take_sublist j bodies').map _)) (.refl base)
      (grows_lowerAll bodies base).within fun _ _ => rfl
  obtain ⟨⟨o, ho, hsame⟩, -⟩ := h.slot_same hi hturn.before hwithin hturn.standing
  exact ⟨o, _, ho, hturn.slot, hsame.grow (.refl _) hturn.after⟩

/-- The order of a batch does not matter if no body is refused a global in one order: in every other
order, every body has the same outcome. -/
theorem lowerAll_perm (config : Config) (hperm : bodies.Perm bodies')
    (hdistinct : (bodies.map (·.method.text)).Nodup)
    (hunrefused : Unrefused (lowerAll bodies (.new config)).1) {i j : Nat} (hi : bodies[i]? = some body)
    (hj : bodies'[j]? = some body) :
    ∃ o o', (lowerAll bodies (.new config)).1[i]? = some o ∧
      (lowerAll bodies' (.new config)).1[j]? = some o' ∧
      SameEnd (lowerAll bodies (.new config)).2 (lowerAll bodies' (.new config)).2 o o' :=
  Undisputed.same ⟨Program.named_new config, hdistinct,
    fun body _ => by rw [Program.standing_new], hunrefused⟩ hperm hi hj

/-- A body that reads the static field of `failingExample` under the same type. -/
def agreeingExample : Body where
  method := ⟨"Batch", "third", [], .prim .void⟩
  isStatic := true
  isSynchronized := false
  locals := #[⟨"x", .int⟩, ⟨"x", .int⟩]
  code := #[⟨.assign (.slot 1) (.staticField ⟨"S", "f", .int⟩), .unknown⟩, ⟨.retVoid, .unknown⟩]

/-- The body is lowered to the same graph before and after the one that fails. -/
theorem lowerAll_perm_examples :
    [failingExample, agreeingExample].Perm [agreeingExample, failingExample] ∧
    ∃ o o', (lowerAll [failingExample, agreeingExample] (.new .standard)).1[1]? = some o ∧
      (lowerAll [agreeingExample, failingExample] (.new .standard)).1[0]? = some o' ∧
      SameEnd (lowerAll [failingExample, agreeingExample] (.new .standard)).2
        (lowerAll [agreeingExample, failingExample] (.new .standard)).2 o o' := by
  have hperm : [failingExample, agreeingExample].Perm [agreeingExample, failingExample] := .swap ..
  have hslots : ((lowerAll [failingExample, agreeingExample] (.new .standard)).1.all fun
      | .error (.lowering fault _) => !fault.isConflict
      | _ => true) = true := by decide +kernel
  refine ⟨hperm, lowerAll_perm .standard hperm (by decide +kernel)
    (fun name requested declared site hmem => ?_) rfl rfl⟩
  have hslot := List.all_eq_true.mp hslots _ hmem
  cases hslot

end Session

end GuardedFlow
