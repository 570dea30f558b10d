import Mathlib.Data.List.Pairwise
import GuardedFlow.Proofs.Lowering.Closedness

/-!
# Temporaries are set once and read in their block

Lowering introduces a temporary before the statement that sets it, and hands it down as a destination
through calls and idioms. In a lowered body every temporary that is read was set by an earlier statement
of the same block, and no other statement of the body sets it: `Session.flowOf_singleAssignment`. A
temporary that nothing sets, since a call ended the path, is read nowhere.
-/

namespace GuardedFlow

/-- The temporaries of a control-flow graph are assigned once, and used in the block that assigns them. -/
structure Flow.SingleAssignment (flow : Flow) : Prop where
  /-- Variables are told apart by their numbers. -/
  identity : ∀ v w, flow.Mentions v → flow.Mentions w → v.same w → v = w
  /-- No two statements set the same temporary. -/
  once : flow.statements.Pairwise fun first second =>
    ∀ v ∈ first.2.defs, ∀ w ∈ second.2.defs, v.role = .temporary ∨ w.role = .temporary → ¬ v.same w
  /-- A temporary that a statement reads was set by an earlier statement of the block. -/
  reads : ∀ block before stmt after, flow.graph.stmtsAt block = before ++ stmt :: after →
    ∀ v ∈ stmt.kind.occurrences, v.role = .temporary → Defined before v
  /-- A temporary that a guard reads was set in the block that the edge leaves. -/
  guards : ∀ link ∈ flow.graph.edges, ∀ guard ∈ link.payload, ∀ v ∈ guard.occurrences,
    v.role = .temporary → Defined (flow.graph.stmtsAt link.source) v

/-- The statements set different temporaries. -/
def Stmt.Separate (s s' : Stmt) : Prop :=
  ∀ v ∈ s.defs, ∀ w ∈ s'.defs, v.role = .temporary → w.role = .temporary → v.id ≠ w.id

/-- Separate statements are so the other way round. -/
theorem Stmt.Separate.symm {s s' : Stmt} (h : s.Separate s') : s'.Separate s :=
  fun v hv w hw hvrole hwrole hid => h w hw v hv hwrole hvrole hid.symm

namespace Flow.InOrder

variable {p : Program} {body : Body} {t : LoweringState} {vs : List Visit} {flow : Flow} {visit other : Visit}

/-- A temporary that a statement in normal form sets was not set before. -/
theorem unset (h : flow.InOrder p body t vs) {stmt : Stmt} {first : Nat} {done : List Stmt}
    (hstmt : stmt.kind.Conforms t.program (t.draft.Readable done) (t.draft.Writable first done)) {v : Var}
    (hv : v ∈ stmt.defs) (hrole : v.role = .temporary) :
    v ∈ t.draft.variables ∧ ¬ Defined done v := by
  rcases hstmt.sets hv with hset | ⟨region, hregion⟩
  · exact ⟨hset.declared, (hset.fresh hrole).2⟩
  · rw [(h.proper.named _ v hregion.lookup).2] at hrole
    cases hrole

/-- An instruction sets a temporary once. -/
theorem pairwise_segment (h : flow.InOrder p body t vs) (hvisit : visit ∈ vs) :
    visit.segment.Pairwise Stmt.Separate := by
  have hsplit (i : Nat) (hi : i < visit.segment.length) :
      visit.segment = visit.segment.take i ++ visit.segment[i] :: visit.segment.drop (i + 1) := by
    rw [← List.drop_eq_getElem_cons hi, List.take_append_drop]
  have hconforms (i : Nat) (hi : i < visit.segment.length) :=
    (h.visits visit hvisit).orderly.conforms (hsplit i hi)
  -- the later statement sets what no statement before it has set, and the earlier one is before it
  rw [List.pairwise_iff_getElem]
  intro i j hi hj hij v hv w hw hvrole hwrole hid
  obtain ⟨hvdeclared, -⟩ := h.unset (hconforms i hi) hv hvrole
  obtain ⟨hwdeclared, hunset⟩ := h.unset (hconforms j hj) hw hwrole
  have hsame : v = w := List.inj_on_of_nodup_map h.proper.distinct hvdeclared hwdeclared hid
  refine hunset ⟨visit.segment[i], ?_, hsame ▸ hv⟩
  rw [List.nil_append]
  exact List.mem_take_iff_getElem.mpr ⟨i, by omega, rfl⟩

/-- Different instructions set different temporaries, since numbers are handed out one after another. -/
theorem pairwise_visits (h : flow.InOrder p body t vs) : vs.Pairwise fun visit other =>
    ∀ s ∈ visit.segment, ∀ s' ∈ other.segment, s.Separate s' := by
  refine h.separate.imp_of_mem fun {visit other} hvisit hother hnext => ?_
  intro s hs s' hs' v hv w hw hvrole hwrole hid
  have hlow := (h.visits visit hvisit).advances.fresh v hvrole ⟨s, hs, hv⟩
  have hhigh := (h.visits other hother).advances.fresh w hwrole ⟨s', hs', hw⟩
  omega

/-- No two statements set the same temporary. -/
theorem pairwise_separate (h : flow.InOrder p body t vs) :
    flow.statements.Pairwise fun first second => first.2.Separate second.2 := by
  refine Flow.pairwise_statements (fun block => ?_) fun block block' hne s hs s' hs' => ?_
  · rw [h.stmts, List.pairwise_flatMap]
    exact ⟨fun visit hvisit => h.pairwise_segment (List.mem_of_mem_filter hvisit), h.pairwise_visits.filter _⟩
  · rw [h.stmts] at hs hs'
    obtain ⟨visit, hvisit, hs⟩ := List.mem_flatMap.mp hs
    obtain ⟨other, hother, hs'⟩ := List.mem_flatMap.mp hs'
    obtain ⟨hvisit, hhome⟩ := List.mem_filter.mp hvisit
    obtain ⟨hother, hhome'⟩ := List.mem_filter.mp hother
    have hdifferent : visit ≠ other := by
      rintro rfl
      simp only [decide_eq_true_eq] at hhome hhome'
      exact hne (Option.some.inj (hhome.symm.trans hhome'))
    have hsymm : Std.Symm fun visit other : Visit =>
        ∀ s ∈ visit.segment, ∀ s' ∈ other.segment, s.Separate s' :=
      ⟨fun _ _ hall s hs s' hs' => (hall s' hs' s hs).symm⟩
    exact h.pairwise_visits.forall hvisit hother hdifferent s hs s' hs'

end Flow.InOrder

namespace Session

/-- In every lowered body temporaries are set by one statement, and read after it in the same block and
on the edges that leave the block. -/
theorem flowOf_singleAssignment {body : Body} {oracle : PredecessorOracle} {p q : Program} {flow : Flow}
    (hp : p.Reachable) (h : flowOf body oracle p = .ok flow q) : flow.SingleAssignment := by
  obtain ⟨t, rfl, hordered⟩ := flowOf_ordered hp.sound h
  have heq {v w : Var} := hordered.numbered.eq_of_same (v := v) (w := w) hordered.proper
  refine ⟨fun v w hv hw => heq (hordered.knows hv) (hordered.knows hw), ?_, ?_, ?_⟩
  · refine hordered.pairwise_separate.imp_of_mem fun {first second} hfirst hsecond hseparate v hv w hw hrole hsame => ?_
    obtain rfl := heq (hordered.sets hfirst hv).1 (hordered.sets hsecond hw).1 hsame
    have htemp : v.role = .temporary := hrole.elim id id
    exact hseparate v hv v hw htemp htemp rfl
  · intro block before stmt after hstmts v hv hrole
    obtain ⟨visit, -, -, earlier, pre, post, rfl, -, hconforms⟩ := hordered.split hstmts
    rcases hconforms.reads hv with hread | ⟨region, hregion⟩
    · obtain ⟨stmt, hstmt, hset⟩ := hread.defined hrole
      exact ⟨stmt, List.mem_append_right _ hstmt, hset⟩
    · rw [(hordered.proper.named _ v hregion.lookup).2] at hrole
      cases hrole
  · intro link hlink guard hguard v hv hrole
    obtain ⟨visit, hvisit, hhome, hover⟩ := hordered.guards link hlink guard hguard
    obtain ⟨stmt, hstmt, hset⟩ := (hover.of_mem hv).defined hrole
    refine ⟨stmt, ?_, hset⟩
    rw [hordered.stmts]
    exact List.mem_flatMap.mpr ⟨visit, List.mem_filter.mpr ⟨hvisit, by simpa using hhome⟩, hstmt⟩

/-- A jump on the order of two fields, which are read into temporaries. -/
def compareExample : Body where
  method := ⟨"Pair", "order", [], .prim .void⟩
  isStatic := true
  isSynchronized := false
  locals := #[⟨"pair", .named "Pair"⟩, ⟨"least", .int⟩]
  code := #[⟨.branch (.binary .lt (.field (.slot 0) ⟨"Pair", "first", .int⟩)
      (.field (.slot 0) ⟨"Pair", "second", .int⟩)) 2, .unknown⟩,
    ⟨.assign (.slot 1) (.field (.slot 0) ⟨"Pair", "second", .int⟩), .unknown⟩, ⟨.retVoid, .unknown⟩]

/-- Both guards read the two temporaries, which were set in the block that they leave. -/
theorem flowOf_singleAssignment_compare : ∃ flow q,
    flowOf compareExample compareExample.predecessorOracle (.new .standard) = .ok flow q ∧
      (flow.graph.edges.toList.flatMap fun link => (link.payload.map Expr.occurrences).getD []).map
        Var.role = List.replicate 4 .temporary ∧ flow.SingleAssignment := by
  obtain ⟨flow, h, hguards⟩ := exists_ok_with
    (r := flowOf compareExample compareExample.predecessorOracle (.new .standard))
    (P := fun flow => (flow.graph.edges.toList.flatMap fun link =>
      (link.payload.map Expr.occurrences).getD []).map Var.role = List.replicate 4 .temporary)
    (by decide +kernel)
  exact ⟨flow, _, h, hguards, flowOf_singleAssignment (.new .standard) h⟩

end Session

end GuardedFlow
