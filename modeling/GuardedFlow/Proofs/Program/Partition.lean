import GuardedFlow.Proofs.Lowering.HeapForm

/-!
# The heap is partitioned

Two accesses of a program go through the same variable only if they are accesses to the same region: the
same instance field, the same element type, or the same static field. This holds although variables are
found by names that are pasted together from those of classes and fields, of which different ones can
give the same name. `Program.heapPartition` states it for all accesses that a program has ever answered,
the ones of a body that could not be lowered to its end included.
-/

namespace GuardedFlow

/-- The request of the heap model for the variable of a region. -/
def Region.request : Region → Session Var
  | field f => Heap.fieldMap f
  | elements element => Heap.arrayMap element
  | static f => Heap.staticVar f

/-- The request for a region is one for its global. -/
theorem Region.request_eq (region : Region) : region.request = Session.global region.name region.ty := by
  cases region <;> rfl

namespace Program

variable {p q r : Program} {region other : Region} {v w : Var}

/-- A request that is answered tells the variable of the region. -/
theorem has_of_request (h : region.request p = .ok v q) : q.Has region v := by
  rw [region.request_eq] at h
  obtain ⟨hlookup, hty⟩ := Session.global_ok h
  exact ⟨hlookup, hty⟩

/-- The variable that a program has for a region is the answer to a request for it. -/
theorem Has.request (h : p.Has region v) : region.request p = .ok v p := by
  rw [region.request_eq, Session.global_eq, h.lookup]
  exact if_pos h.ty

/-- Up to now, the program has answered a request for the variable of the region with `v`. -/
def Accessed (r : Program) (region : Region) (v : Var) : Prop :=
  ∃ p q, p.Reachable ∧ region.request p = .ok v q ∧ q.Steps r

/-- A program that has answered a request is sound. -/
theorem Accessed.sound (h : r.Accessed region v) : r.Sound := by
  obtain ⟨p, q, hp, hrequest, hr⟩ := h
  have hq : p.Steps q := by
    have hsteps := Steps.of_requests (Session.requests_global region.name region.ty) p
    rwa [← region.request_eq, hrequest] at hsteps
  exact ((hp.trans hq).trans hr).sound

/-- A program keeps the variables that it has answered with. -/
theorem Accessed.has (h : r.Accessed region v) : r.Has region v := by
  obtain ⟨p, q, -, hrequest, hr⟩ := h
  exact hr.stays.toGrows.has (has_of_request hrequest)

/-- All accesses that a program has answered go through variables that separate the regions of the heap. -/
structure HeapPartition (r : Program) : Prop where
  /-- The globals in the statements of an instruction are the variables of its accesses, in order. -/
  lowered : ∀ body oracle p, p.Reachable → (stateAfter (Session.flowOf body oracle p)).Steps r →
    ∀ visit ∈ Session.visits body oracle p,
      List.Forall₂ r.Accessed ((visit.instr.op.accesses p body).map Access.region)
        (visit.segment.flatMap (·.kind.globals))
  fields : ∀ f g v w, r.Accessed (.field f) v → r.Accessed (.field g) w → (v.same w ↔ f = g)
  elements : ∀ s t v w, r.Accessed (.elements s) v → r.Accessed (.elements t) w → (v.same w ↔ s = t)
  field_elements : ∀ f s v w, r.Accessed (.field f) v → r.Accessed (.elements s) w → ¬ v.same w
  statics : ∀ f g v w, r.Accessed (.static f) v → r.Accessed (.static g) w →
    '.' ∉ f.name.toList → '.' ∉ g.name.toList → (v.same w ↔ f.owner = g.owner ∧ f.name = g.name)
  static_maps : ∀ f region v w, r.Accessed (.static f) v → r.Accessed region w →
    (∀ g, region ≠ .static g) → (∀ keys value, f.ty ≠ .map keys value) → ¬ v.same w

end Program

/-- The globals in orderly statements are the variables of the accesses. -/
theorem Orderly.has {first : Nat} {t : LoweringState} {done out : List Stmt} {accesses : List Access}
    (h : Orderly first t done accesses out) (ht : t.Proper) :
    List.Forall₂ t.program.Has (accesses.map Access.region) (out.flatMap (·.kind.globals)) := by
  induction h with
  | nil => exact .nil
  | plain hstmt _ ih => rwa [List.flatMap_cons, ht.plain_globals hstmt]
  | access hstmt _ ih =>
    obtain ⟨v, hv, hglobals⟩ := ht.access_globals hstmt
    rw [List.flatMap_cons, hglobals]
    exact .cons hv ih

/-- The accesses of an instruction that was lowered are answered, also if a later one is refused. -/
theorem Session.visits_accessed {body : Body} {oracle : PredecessorOracle} {p r : Program}
    (hp : p.Reachable) (hr : (stateAfter (flowOf body oracle p)).Steps r) {visit : Visit}
    (hvisit : visit ∈ visits body oracle p) :
    List.Forall₂ r.Accessed ((visit.instr.op.accesses p body).map Access.region)
      (visit.segment.flatMap (·.kind.globals)) := by
  have hkeeps := (Lower.Keeps.stream oracle body).after (startOf body p)
  have hordered := visits_ordered hp.sound body oracle visit hvisit
  -- a lowering that fails leaves the program with all that it was asked for until then
  have hprogram : (stateAfter (Lower.stream oracle body (startOf body p))).program =
      stateAfter (flowOf body oracle p) := by
    rw [flowOf_run]
    cases Lower.stream oracle body (startOf body p) <;> rfl
  have hhas := hordered.orderly.has (hkeeps.proper (within_startOf hp.sound.named body).proper)
  have hreachable : r.Reachable :=
    (hp.trans (Program.Steps.of_requests (flowOf_requests body oracle) p)).trans hr
  refine hhas.imp fun region v hv => ?_
  have hnow : r.Has region v := hr.stays.toGrows.has (hprogram ▸ hv)
  exact ⟨r, r, hreachable, hnow.request, .refl⟩

/-- The heap of every program is partitioned by fields and element types. -/
theorem Program.heapPartition (r : Program) : r.HeapPartition where
  lowered _ _ _ hp hr _ hvisit := Session.visits_accessed hp hr hvisit
  fields _ _ _ _ hv hw := hv.has.field_iff hv.sound.numbered hw.has
  elements _ _ _ _ hv hw := hv.has.elements_iff hv.sound.numbered hw.has
  field_elements _ _ _ _ hv hw := hv.has.field_ne_elements hv.sound.numbered hw.has
  statics _ _ _ _ hv hw hf hg := hv.has.static_iff hv.sound.numbered hw.has hf hg
  static_maps _ _ _ _ hv hw hregion hf := hv.has.static_ne_map hv.sound.numbered hw.has hregion hf

-- The maps of these fields have one name; whichever is asked for second is refused.
example : succeeds ((do
    let _ ← Heap.fieldMap ⟨"A.b", "c", .int⟩
    Heap.fieldMap ⟨"A", "b.c", .int⟩) (Program.new .standard)) = false := by decide +kernel

-- Static fields of one type are not told apart, if a dot may stand in the name of a field.
example : succeedsWith (fun (v, w) => v.same w) ((do
    let v ← Heap.staticVar ⟨"A.b", "c", .int⟩
    let w ← Heap.staticVar ⟨"A", "b.c", .int⟩
    return (v, w)) (Program.new .standard)) = true := by decide +kernel

end GuardedFlow
