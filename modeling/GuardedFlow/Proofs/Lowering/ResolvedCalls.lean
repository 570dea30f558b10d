import GuardedFlow.Proofs.Lowering.Findings
import GuardedFlow.Proofs.Lowering.Leaders
import GuardedFlow.Proofs.Lowering.MethodCalls

/-!
# Calls that no idiom matches

The table of idioms decides on every call that is not indirect, wherever it stands and whatever is known
about the method. A call statement on a method is left where the table has no entry.
`Session.flowOf_prefersIdioms` gives every such statement of a lowered body a call site of its own, on which
the table was asked and gave no answer. So the signatures that the configuration has idioms for are not
among those that are called.
-/

namespace GuardedFlow

namespace Idiom

variable {idioms : List Idiom} {site : CallSite}

/-- An idiom for a signature applies to all calls of it, or to those whose result is used. -/
theorem text_ne_of_lookup (h : lookup idioms site = none) {text : String} (kind : IdiomKind)
    (requiresResult : Bool) (hmem : ⟨.signature text, kind, requiresResult⟩ ∈ idioms)
    (hresult : requiresResult → site.hasResult) : site.method.text ≠ text := by
  intro htext
  have hnone := List.find?_eq_none.mp (Option.map_eq_none_iff.mp h) _ hmem
  refine hnone ?_
  cases requiresResult with
  | true => simp [applies, Matcher.holds, htext, hresult rfl]
  | false => simp [applies, Matcher.holds, htext]

/-- The calls that the table of a configuration has no entry for have none of the configured signatures.
Only queries of types and casts may be left whose result is not used. -/
theorem lookup_table_eq_none {config : Config} (h : lookup (table config) site = none) :
    site.method.text ∉ [config.assertMethod, config.stringLengthSignature, config.exitSignature] ∧
      (site.hasResult → site.method.text ∉ [config.assignableSignature, config.getClassSignature,
        config.castSignature, config.isInstanceSignature]) := by
  have halways {text : String} (kind : IdiomKind) (hmem : ⟨.signature text, kind, false⟩ ∈ table config) :
      site.method.text ≠ text := text_ne_of_lookup h kind false hmem nofun
  constructor
  · simp only [List.mem_cons, List.not_mem_nil, or_false, not_or]
    exact ⟨halways .assertion (by simp [table]), halways .stringLength (by simp [table]),
      halways .exit (by simp [table])⟩
  · intro hresult
    have hquery {text : String} (kind : IdiomKind) (hmem : ⟨.signature text, kind, true⟩ ∈ table config) :
        site.method.text ≠ text := text_ne_of_lookup h kind true hmem fun _ => hresult
    simp only [List.mem_cons, List.not_mem_nil, or_false, not_or]
    exact ⟨hquery .isAssignableFrom (by simp [table]), hquery .getClass (by simp [table]),
      hquery .cast (by simp [table]), hquery .isInstance (by simp [table])⟩

end Idiom

/-- The calls that an instruction asks for and that no idiom matches, with their location. -/
def Instr.unmatchedCalls (idioms : List Idiom) (instr : Instr) : List (Location × String × Bool) :=
  (CallSite.unmatched idioms instr.op.callSites).map (instr.location, ·)

/-- The methods that the statements of a graph call, with the locations of the statements. -/
def Flow.resolvedCalls (flow : Flow) : List (Location × String × Bool) :=
  flow.statements.filterMap fun (_, stmt) => stmt.resolved?.map (stmt.location, ·)

/-- The statements of a visit call no more methods than there are unmatched calls in its instruction. -/
theorem Visit.During.sends {body : Body} {s t : LoweringState} {v : Visit} {index : Nat}
    (h : v.During body s t index) : (v.segment.filterMap Stmt.resolved?).Subperm
      (CallSite.unmatched s.program.idioms v.instr.op.callSites) := by
  obtain ⟨block, hopen⟩ := h.home
  rw [Visit.segment, (Lower.operation_went h.standing hopen h.run).shows.resolved,
    h.before.program.idioms]
  exact v.instr.op.resolved_events _

/-- Lists that are contained in others one by one are contained in them together. -/
theorem subperm_flatMap {α β : Type} {f g : α → List β} {l : List α} (h : ∀ a ∈ l, (f a).Subperm (g a)) :
    (l.flatMap f).Subperm (l.flatMap g) := by
  induction l with
  | nil => exact .refl _
  | cons a rest ih =>
    rw [List.flatMap_cons, List.flatMap_cons]
    exact (h a List.mem_cons_self).append (ih fun b hb => h b (List.mem_cons_of_mem _ hb))

/-- Which calls of methods are left in a graph that was lowered in a program: none that the configuration
of the program has an idiom for. -/
structure Flow.PrefersIdioms (flow : Flow) (body : Body) (p : Program) : Prop where
  /-- Every call of a method has a call of its own in the body that no idiom matches. It stands at the
  location of the instruction, calls the same signature, and stores the result if the table was told that
  the result is used. -/
  sites : flow.resolvedCalls.Subperm (body.code.toList.flatMap (·.unmatchedCalls p.idioms))
  /-- The call is not an indirect one, and the table has no entry for it. -/
  unmatched : ∀ location signature hasResult, (location, signature, hasResult) ∈ flow.resolvedCalls →
    ∃ instr ∈ body.code, ∃ site ∈ instr.op.callSites, instr.location = location ∧
      site.method.text = signature ∧ site.hasResult = hasResult ∧ Idiom.lookup p.idioms site = none
  /-- Assertions, queries of the length of a string and exits of the process are never called, whether
  they are methods with a body or not. -/
  always : ∀ location signature hasResult, (location, signature, hasResult) ∈ flow.resolvedCalls →
    signature ∉ [p.config.assertMethod, p.config.stringLengthSignature, p.config.exitSignature]
  /-- Queries of types and casts are not called for their result. -/
  queries : ∀ location signature, (location, signature, true) ∈ flow.resolvedCalls →
    signature ∉ [p.config.assignableSignature, p.config.getClassSignature, p.config.castSignature,
      p.config.isInstanceSignature]

namespace Session

variable {body : Body} {oracle : PredecessorOracle} {p q : Program} {flow : Flow}

/-- The statements of every visit call methods for the unmatched calls of its instruction. -/
theorem visits_send (h : flowOf body oracle p = .ok flow q) : ∀ v ∈ visits body oracle p,
    (v.segment.filterMap fun stmt => stmt.resolved?.map (stmt.location, ·)).Subperm
      (v.instr.unmatchedCalls p.idioms) := by
  by_cases hempty : body.code.isEmpty
  · obtain ⟨hvisits, -, -⟩ := flowOf_empty hempty h
    simp [hvisits]
  · obtain ⟨entered, t, block, hpasses, -, -, hentered, hopen, -, -, -, henter⟩ := flowOf_passes hempty h
    intro v hv
    have hpos : 0 < body.code.size := by
      rw [Array.isEmpty_iff_size_eq_zero] at hempty
      omega
    obtain ⟨-, hprogram, -⟩ := Lower.enter_arrives (standing_startOf body p) hpos henter
    have hidioms : entered.program.idioms = p.idioms := by
      rw [hprogram]
      rfl
    have hlocated := hpasses.located hentered hopen (Lower.enter_current henter) v hv
    have hsegment : (v.segment.filterMap fun stmt => stmt.resolved?.map (stmt.location, ·)) =
        (v.segment.filterMap Stmt.resolved?).map (v.instr.location, ·) := by
      rw [List.map_filterMap]
      exact List.filterMap_congr fun stmt hstmt => by rw [hlocated stmt hstmt]
    obtain ⟨index, hindex⟩ := List.mem_iff_getElem?.mp hv
    have hsends := (hpasses.during hentered hopen (v, index)
      (List.mem_zipIdx_iff_getElem?.mpr hindex)).sends
    rw [hidioms] at hsends
    rw [hsegment]
    exact hsends.map fun _ _ heq => (Prod.ext_iff.mp heq).2

/-- The calls of methods in a graph have different unmatched calls of the body. -/
theorem resolvedCalls_subperm (h : flowOf body oracle p = .ok flow q) :
    flow.resolvedCalls.Subperm (body.code.toList.flatMap (·.unmatchedCalls p.idioms)) := by
  have hstatements := (statements_perm h).filterMap fun stmt => stmt.resolved?.map (stmt.location, ·)
  rw [List.filterMap_map, List.filterMap_flatMap] at hstatements
  rw [← flowOf_instrs h, List.flatMap_map]
  exact hstatements.subperm.trans (subperm_flatMap (visits_send h))

/-- Idioms come before calls in every lowering, whatever the configuration is and whatever was lowered
before. -/
theorem flowOf_prefersIdioms (h : flowOf body oracle p = .ok flow q) : flow.PrefersIdioms body p := by
  have hsites := resolvedCalls_subperm h
  have hunmatched {location : Location} {signature : String} {hasResult : Bool}
      (hcall : (location, signature, hasResult) ∈ flow.resolvedCalls) :
      ∃ instr ∈ body.code, ∃ site ∈ instr.op.callSites, instr.location = location ∧
        site.method.text = signature ∧ site.hasResult = hasResult ∧ Idiom.lookup p.idioms site = none := by
    obtain ⟨instr, hinstr, hmem⟩ := List.mem_flatMap.mp (hsites.subset hcall)
    obtain ⟨call, hcall, heq⟩ := List.mem_map.mp hmem
    obtain ⟨site, hsite, hlookup, rfl⟩ := CallSite.mem_unmatched.mp hcall
    cases heq
    exact ⟨instr, Array.mem_toList_iff.mp hinstr, site, hsite, rfl, rfl, rfl, hlookup⟩
  refine ⟨hsites, fun _ _ _ => hunmatched, fun _ _ _ hcall => ?_, fun _ _ hcall => ?_⟩
  · obtain ⟨-, -, site, -, -, rfl, -, hlookup⟩ := hunmatched hcall
    exact (Idiom.lookup_table_eq_none hlookup).1
  · obtain ⟨-, -, site, -, -, rfl, hresult, hlookup⟩ := hunmatched hcall
    exact (Idiom.lookup_table_eq_none hlookup).2 hresult

/-- A body for the method that assertions call. -/
def checkExample : Body where
  method := ⟨"cfglift.Assertions", "check", [.boolean], .prim .void⟩
  isStatic := true
  isSynchronized := false
  locals := #[⟨"condition", .boolean⟩]
  code := #[⟨.retVoid, .unknown⟩]

/-- The program in which the method that assertions call was lowered. -/
def checkedProgram : Program := stateAfter (lowerByTransfers checkExample (.new .standard))

/-- An assertion of what a method answers about the answer of another one, and two queries of a type: the
first one is stored, the other is not. -/
def queryExample : Body where
  method := ⟨"Types", "query", [.named "java.lang.Class", .named "java.lang.Object"], .prim .void⟩
  isStatic := true
  isSynchronized := false
  locals := #[⟨"type", .named "java.lang.Class"⟩, ⟨"object", .named "java.lang.Object"⟩, ⟨"answer", .boolean⟩]
  code := #[⟨.invoke ⟨.static, checkExample.method, none,
      [.call .static ⟨"Types", "known", [.named "java.lang.Object"], .boolean⟩ none
        [.call .static ⟨"Types", "unwrap", [.named "java.lang.Object"], .named "java.lang.Object"⟩ none
          [.slot 1]]]⟩, .unknown⟩,
    ⟨.assign (.slot 2) (.call .virtual
      ⟨"java.lang.Class", "isInstance", [.named "java.lang.Object"], .boolean⟩ (some (.slot 0)) [.slot 1]),
      .unknown⟩,
    ⟨.invoke ⟨.virtual, ⟨"java.lang.Class", "isInstance", [.named "java.lang.Object"], .boolean⟩,
      some (.slot 0), [.slot 1]⟩, .unknown⟩,
    ⟨.retVoid, .unknown⟩]

/-- The method that assertions call has a body and is not called. Called are the two methods in the
assertion, and the query whose answer is not used. -/
theorem flowOf_prefersIdioms_query :
    (checkedProgram.lookupMethod checkedProgram.config.assertMethod).any Method.hasBody ∧ ∃ flow q,
      flowOf queryExample queryExample.predecessorOracle checkedProgram = .ok flow q ∧
        flow.PrefersIdioms queryExample checkedProgram ∧
        flow.resolvedCalls.map Prod.snd =
          [("<Types: java.lang.Object unwrap(java.lang.Object)>", true),
            ("<Types: boolean known(java.lang.Object)>", true),
            (checkedProgram.config.isInstanceSignature, false)] := by
  obtain ⟨flow, h, hcalls⟩ := exists_ok_with
    (r := flowOf queryExample queryExample.predecessorOracle checkedProgram)
    (P := fun flow => flow.resolvedCalls.map Prod.snd =
      [("<Types: java.lang.Object unwrap(java.lang.Object)>", true),
        ("<Types: boolean known(java.lang.Object)>", true),
        (checkedProgram.config.isInstanceSignature, false)]) (by decide +kernel)
  exact ⟨by decide +kernel, flow, _, h, flowOf_prefersIdioms h, hcalls⟩

end Session

end GuardedFlow
