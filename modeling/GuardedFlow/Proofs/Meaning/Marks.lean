import GuardedFlow.Proofs.Meaning.Parametricity

/-!
# What the value of an operand depends on

In the meaning `Meaning.marks` values are marks. Evaluating an operand with it, in a store where some
variables are marked, tells whether its value can depend on what these variables hold: an operand without
a mark has the same value in all stores that differ in marked variables only.
-/

namespace GuardedFlow

variable {U : Type}

namespace Meaning

/-- The interpretation by marks. What is computed from something marked is marked; constants, fresh
references and heap maps that are overwritten are not. A call depends on all globals, and they on it; if
any global is marked, then the given one is. -/
def marks (source : String) : Meaning Bool where
  datum _ := false
  unary _ mark := mark
  binary _ mark mark' := mark || mark'
  alloc _ := false
  select map keys := map || keys.any id
  update _ _ _ := false
  call _ args globals := (args.any id || globals source, fun _ => args.any id || globals source)

/-- The interpretation by values in several stores side by side. -/
def each (ι : Type) (M : Meaning U) : Meaning (ι → U) where
  datum value _ := M.datum value
  unary op u i := M.unary op (u i)
  binary op u v i := M.binary op (u i) (v i)
  alloc ty _ := M.alloc ty
  select map keys i := M.select (map i) (keys.map (· i))
  update map keys u i := M.update (map i) (keys.map (· i)) (u i)
  call signature args globals :=
    (fun i => (M.call signature (args.map (· i)) fun name => globals name i).1,
      fun name i => (M.call signature (args.map (· i)) fun name => globals name i).2 name)

variable {M : Meaning U} {config : Config} {t : LoweringState}

/-- Values side by side are computed for each store. -/
theorem each_related (ι : Type) (M : Meaning U) (i : ι) :
    (M.each ι).Related (fun u v => u i = v) (fun (g : Globals (ι → U)) h => (fun name => g name i) = h)
      M := by
  have hmap {us : List (ι → U)} {vs : List U} (h : List.Forall₂ (fun u v => u i = v) us vs) :
      us.map (· i) = vs := List.forall₂_eq_eq_eq ▸ List.forall₂_map_left_iff.mpr h
  refine ⟨fun _ => rfl, fun op u v h => ?_, fun op u v u' v' h h' => ?_, fun _ => rfl,
    fun map map' us vs h hkeys => ?_, fun g h name hg => congrFun hg name,
    fun signature us vs g h hargs hg => ?_⟩
  · rw [← h]
    rfl
  · rw [← h, ← h']
    rfl
  · rw [← h, ← hmap hkeys]
    rfl
  · rw [← hg, ← hmap hargs]
    exact ⟨rfl, rfl⟩

/-- Marks of nothing are no marks. -/
theorem marks_related_clean (source : String) :
    (marks source).Related (fun mark (_ : Bool) => mark = false) (fun g _ => ∀ name, g name = false)
      (marks source) := by
  have hany {keys : List Bool} {others : List Bool}
      (h : List.Forall₂ (fun mark (_ : Bool) => mark = false) keys others) : keys.any id = false := by
    induction h with
    | nil => rfl
    | cons hmark _ ih => simp [hmark, ih]
  refine ⟨fun _ => rfl, fun _ _ _ h => h, fun op u v u' v' h h' => ?_, fun _ => rfl,
    fun map map' us vs h hkeys => ?_, fun g _ name hg => hg name, fun signature us vs g h hargs hg => ?_⟩
  · simp [marks, h, h']
  · simp [marks, h, hany hkeys]
  · simp [marks, hany hargs, hg source]

/-- What is not marked is the same in all stores side by side. -/
theorem marks_related_each {ι : Type} (source : String) (M : Meaning U) :
    (marks source).Related (fun mark u => mark = false → ∀ i j : ι, u i = u j)
      (fun g (h : Globals (ι → U)) => g source = true ∧
        ∀ name, g name = false → ∀ i j : ι, h name i = h name j) (M.each ι) := by
  have hmap {keys : List Bool} {us : List (ι → U)}
      (h : List.Forall₂ (fun mark u => mark = false → ∀ i j : ι, u i = u j) keys us)
      (hany : keys.any id = false) (i j : ι) : us.map (· i) = us.map (· j) := by
    induction h with
    | nil => rfl
    | cons hu _ ih =>
      obtain ⟨hmark, hrest⟩ := Bool.or_eq_false_iff.mp hany
      rw [List.map_cons, List.map_cons, hu hmark i j, ih hrest]
  refine ⟨fun _ _ _ _ => rfl, fun op u v h hu i j => ?_, fun op u v u' v' h h' hu i j => ?_,
    fun _ _ _ _ => rfl, fun map map' us vs h hkeys hu i j => ?_, fun g h name hg => hg.2 name,
    fun signature us vs g h hargs hg => ?_⟩
  · exact congrArg (M.unary op) (h hu i j)
  · obtain ⟨hu, hu'⟩ := Bool.or_eq_false_iff.mp hu
    exact congrArg₂ (M.binary op) (h hu i j) (h' hu' i j)
  · obtain ⟨hmapped, hany⟩ := Bool.or_eq_false_iff.mp hu
    exact congrArg₂ M.select (h hmapped i j) (hmap hkeys hany i j)
  · -- every call is marked, as it depends on the marked global
    simp [marks, hg.1]

/-- Without marks in the store an operand has no mark. -/
theorem evaluate_clean {source : String} {v : Value} {mark : Bool} {g : Globals Bool}
    (h : (marks source).evaluate config (t.scope ⟨fun _ => false, fun _ => false⟩) v (fun _ => false) =
      some (mark, g)) : mark = false := by
  have hrelated := (marks_related_clean source).evaluate config
    (t.scope_related (σ := ⟨fun _ => false, fun _ => false⟩) (τ := ⟨fun _ => false, fun _ => false⟩)
      fun _ => rfl) v (fun _ => false) (fun _ => false) fun _ => rfl
  rw [h] at hrelated
  cases hrelated with
  | some hmark => exact hmark.1

/-- An operand without a mark has one value in all stores that agree on what is not marked. -/
theorem evaluate_unmarked {source : String} {μ : Store Bool} {σ σ' : Store U} {v : Value}
    {g : Globals Bool} {h h' : Globals U} {u u' : U} (hsource : μ.globals source = true)
    (hlocals : ∀ id, μ.locals id = false → σ.locals id = σ'.locals id)
    (hglobals : ∀ name, μ.globals name = false → σ.globals name = σ'.globals name)
    (hmarks : (marks source).evaluate config (t.scope μ) v μ.globals = some (false, g))
    (hu : M.evaluate config (t.scope σ) v σ.globals = some (u, h))
    (hu' : M.evaluate config (t.scope σ') v σ'.globals = some (u', h')) : u = u' := by
  -- both stores side by side
  let τ : Store (Bool → U) :=
    ⟨fun name i => cond i (σ'.globals name) (σ.globals name),
      fun id i => cond i (σ'.locals id) (σ.locals id)⟩
  have hsame {a b : U} (hab : a = b) (i j : Bool) : cond i b a = cond j b a := by
    subst hab
    cases i <;> cases j <;> rfl
  have hunmarked := (marks_related_each source M).evaluate config
    (t.scope_related (σ := μ) (τ := τ) fun id hid => hsame (hlocals id hid)) v μ.globals τ.globals
    ⟨hsource, fun name hname => hsame (hglobals name hname)⟩
  rw [hmarks] at hunmarked
  generalize heach : (M.each Bool).evaluate config (t.scope τ) v τ.globals = r at hunmarked
  cases hunmarked with
  | @some _ w hw =>
    have hfirst := (each_related Bool M false).evaluate config
      (t.scope_related (σ := τ) (τ := σ) fun id => rfl) v τ.globals σ.globals rfl
    have hsecond := (each_related Bool M true).evaluate config
      (t.scope_related (σ := τ) (τ := σ') fun id => rfl) v τ.globals σ'.globals rfl
    rw [heach, hu] at hfirst
    rw [heach, hu'] at hsecond
    cases hfirst with
    | some hfirst =>
      cases hsecond with
      | some hsecond => exact hfirst.1.symm.trans ((hw.1 rfl false true).trans hsecond.1)

end Meaning

end GuardedFlow
