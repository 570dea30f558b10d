import Mathlib.Data.Fintype.EquivFin
import GuardedFlow.Proofs.Lowering.Agreement

/-!
# Variables by their places

Two lowerings of one body number its variables differently. What stays is how a variable is found: a
local that the body declares by its place in the declarations, which may repeat a name, and any other
variable by its name, type and role. `Flow.byPlace` identifies variables in this way, and so it is the
control-flow graph up to the identity of variables. `Sides.ofBody` compares lowerings like this.
-/

namespace GuardedFlow

/-- The place of a variable among declared locals. Variables that no body declares have none. -/
def Var.place (locals : List Var) (v : Var) : Nat :=
  if v.role = .declared then locals.idxOf v else 0

namespace Flow

/-- The locals that the body declares. -/
def declared (flow : Flow) : List Var := flow.locals.toList.filter (·.role = .declared)

/-- A control-flow graph up to the identity of variables. -/
def byPlace (flow : Flow) : Flow := flow.renumber (Var.place flow.declared)

end Flow

variable {locals locals' : List Var}

/-- Places differ in numbers only if the locals do. -/
theorem place_alike (locals locals' : List Var) : NumberAlike (Var.place locals) (Var.place locals') :=
  fun v w hv hw => by rw [Var.place, Var.place, if_neg hv, if_neg hw]

/-- A declared local among different ones is told by its place. -/
theorem Var.place_getElem (hlocals : locals.Nodup) (hdeclared : ∀ v ∈ locals, v.role = .declared) {i : Nat}
    (hi : i < locals.length) : locals[i].place locals = i := by
  rw [place, if_pos (hdeclared _ (List.getElem_mem hi)), hlocals.idxOf_getElem]

/-- Declared locals, all different. -/
structure Declares (locals : List Var) : Prop where
  nodup : locals.Nodup
  declared : ∀ v ∈ locals, v.role = .declared

/-- Locals of the same declarations are the same by their places. -/
theorem Declares.map_place (h : Declares locals) (h' : Declares locals')
    (hsame : locals.map (Var.renumber fun _ => 0) = locals'.map (Var.renumber fun _ => 0)) :
    locals.map (Var.renumber (Var.place locals)) = locals'.map (Var.renumber (Var.place locals')) := by
  have hlength : locals.length = locals'.length := by simpa using congrArg List.length hsame
  refine List.ext_getElem (by simpa using hlength) fun i hi hi' => ?_
  rw [List.length_map] at hi hi'
  have hi : Var.renumber (fun _ => 0) locals[i] = Var.renumber (fun _ => 0) locals'[i] := by
    have hget := congrArg (·[i]?) hsame
    simpa [hi, hi'] using hget
  rw [List.getElem_map, List.getElem_map, Var.renumber, Var.renumber, Var.place_getElem h.nodup h.declared,
    Var.place_getElem h'.nodup h'.declared]
  simp only [Var.renumber, Var.mk.injEq] at hi ⊢
  simpa using hi

/-- Every variable has a counterpart of the same place. -/
theorem Declares.exists_place (h : Declares locals) (h' : Declares locals')
    (hsame : locals.map (Var.renumber fun _ => 0) = locals'.map (Var.renumber fun _ => 0)) (v : Var) :
    ∃ w, v.renumber (Var.place locals) = Var.renumber (Var.place locals') w := by
  by_cases hrole : v.role = .declared
  · by_cases hv : v ∈ locals
    · have hmem := List.mem_map_of_mem (f := Var.renumber (Var.place locals)) hv
      rw [h.map_place h' hsame] at hmem
      obtain ⟨w, -, hw⟩ := List.mem_map.mp hmem
      exact ⟨w, hw.symm⟩
    · -- a variable that is not declared here corresponds to one that is not declared there
      obtain ⟨id, hid⟩ := Infinite.exists_notMem_finset (locals'.map Var.id).toFinset
      have hw : ({ v with id } : Var) ∉ locals' := fun hmem =>
        hid (List.mem_toFinset.mpr (List.mem_map_of_mem (f := Var.id) hmem))
      have hlength : locals.length = locals'.length := by simpa using congrArg List.length hsame
      refine ⟨{ v with id }, ?_⟩
      rw [Var.renumber, Var.renumber, Var.place, Var.place, if_pos hrole, if_pos hrole,
        List.idxOf_of_notMem hv, List.idxOf_of_notMem hw, hlength]
  · exact ⟨v, (place_alike locals locals').renumber _ _ _ _ hrole⟩

namespace Session

variable {p q r : Program}

/-- The locals of a lowering at its start. -/
def localsOf (body : Body) (p : Program) : List Var := (startOf body p).draft.locals.toList

/-- The locals of a body are declared variables, each with a number of its own. -/
theorem declares_localsOf (hp : p.Named) (body : Body) : Declares (localsOf body p) := by
  have hproper := proper_startOf hp body
  have hsublist : (localsOf body p).Sublist (startOf body p).draft.variables := by
    unfold localsOf Draft.variables
    simp only [List.append_assoc]
    exact (List.sublist_append_left _ _).trans <| (List.sublist_append_right _ _).trans <|
      (List.sublist_append_right _ _).trans (List.sublist_append_right _ _)
  exact ⟨(hproper.distinct.sublist (hsublist.map Var.id)).of_map,
    fun v hv => (hproper.locals v (Array.mem_toList_iff.mp hv)).1⟩

/-- The locals of a body are the same in every program, up to their numbers. -/
theorem map_localsOf (body : Body) (p q : Program) :
    (localsOf body p).map (Var.renumber fun _ => 0) = (localsOf body q).map (Var.renumber fun _ => 0) := by
  have hlocals := congrArg Array.toList (locals_startOf body p q)
  rwa [Array.toList_map, Array.toList_map] at hlocals

/-- The locals of a lowering at its start are the same by their places. -/
theorem places_startOf (body : Body) (hp : p.Named) (hq : q.Named) :
    (startOf body p).draft.locals.map (Var.renumber (Var.place (localsOf body p))) =
      (startOf body q).draft.locals.map (Var.renumber (Var.place (localsOf body q))) := by
  refine Array.toList_inj.mp ?_
  rw [Array.toList_map, Array.toList_map]
  exact (declares_localsOf hp body).map_place (declares_localsOf hq body) (map_localsOf body p q)

/-- The declared locals of a finished graph are those that the lowering started with. -/
theorem declared_of_flowOf {body : Body} {oracle : PredecessorOracle} {flow : Flow} (hp : p.Named)
    (h : flowOf body oracle p = .ok flow q) : flow.declared = localsOf body p := by
  obtain ⟨t, hstream, rfl, -⟩ := flowOf_ok h
  have hcontinues := (Lower.Keeps.stream oracle body).ok hstream
  have hproper := hcontinues.proper (proper_startOf hp body)
  have hlocals : ∀ v ∈ t.draft.locals.toList, v.role = .declared := fun v hv =>
    (hproper.locals v (Array.mem_toList_iff.mp hv)).1
  have htemps : ∀ v ∈ t.draft.temps.toList, v.role ≠ .declared := fun v hv => by
    rw [(hproper.temps v (Array.mem_toList_iff.mp hv)).1]
    simp
  have hexception : ∀ v ∈ t.draft.exception.toArray.toList, v.role ≠ .declared := fun v hv => by
    rw [(hproper.exception v (by simpa using hv)).1]
    simp
  unfold Flow.declared Draft.finish
  dsimp only
  rw [Array.toList_append, Array.toList_append, List.filter_append, List.filter_append,
    List.filter_eq_self.mpr (by simpa using hlocals), List.filter_eq_nil_iff.mpr (by simpa using htemps),
    List.filter_eq_nil_iff.mpr (by simpa using hexception), List.append_nil, List.append_nil,
    hcontinues.locals, localsOf]

end Session

/-- Two programs in which the locals of a body are compared by their places. -/
def Sides.ofBody (body : Body) {p q : Program} (hp : p.Named) (hq : q.Named)
    (left right : String → Prop) : Sides where
  left := left
  right := right
  number := Var.place (Session.localsOf body p)
  number' := Var.place (Session.localsOf body q)
  alike := place_alike _ _
  total := (Session.declares_localsOf hp body).exists_place (Session.declares_localsOf hq body)
    (Session.map_localsOf body p q)
  onto w :=
    let ⟨v, hv⟩ := (Session.declares_localsOf hq body).exists_place (Session.declares_localsOf hp body)
      (Session.map_localsOf body q p) w
    ⟨v, hv.symm⟩

end GuardedFlow
