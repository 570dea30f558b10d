import GuardedFlow.Proofs.Lowering.FlowOrder

/-!
# Closed control-flow graphs

All that the statements and guards of a lowered body mention are variables of its method and globals of
the program, and a variable is known by its number. The variables keep their roles: parameters, the
receiver and the caught exception are not set, and the result is not read. `Session.flowOf_closed` states
this for every lowering that succeeds.
-/

namespace GuardedFlow

namespace Flow

/-- The variables that a method gets from outside. -/
def inputs (flow : Flow) : List Var :=
  flow.receiver.toList ++ flow.params.toList ++ flow.locals.toList.filter (·.role = .exception)

/-- The variable is read by a statement or a guard. -/
def Reads (flow : Flow) (v : Var) : Prop :=
  (∃ entry ∈ flow.statements, v ∈ entry.2.kind.occurrences) ∨
    ∃ link ∈ flow.graph.edges, ∃ guard ∈ link.payload, v ∈ guard.occurrences

/-- A control-flow graph that is closed in a program, and whose variables keep to their roles. -/
structure Closed (flow : Flow) (q : Program) : Prop where
  /-- A variable that is mentioned belongs to the method, or the program has it under its name. -/
  known : ∀ v, flow.Mentions v → v ∈ flow.variables ∨ q.globals.lookup v.name = some v
  /-- No two variables of the method have the same number. -/
  distinct : (flow.variables.map Var.id).Nodup
  /-- No variable of the method has the number of a global. -/
  apart : ∀ v ∈ flow.variables, ∀ name w, q.globals.lookup name = some w → ¬ v.same w
  /-- No statement sets a parameter, the receiver or the caught exception. -/
  sets : ∀ entry ∈ flow.statements, ∀ v ∈ entry.2.defs, ∀ input ∈ flow.inputs, ¬ v.same input
  /-- Nothing reads the variable that returned values are assigned to. -/
  result : ∀ result ∈ flow.result, ∀ v, flow.Reads v → ¬ v.same result

end Flow

/-- The variable belongs to the body, or the program has it under its name. -/
def LoweringState.Knows (t : LoweringState) (v : Var) : Prop :=
  v ∈ t.draft.variables ∨ t.program.globals.lookup v.name = some v

section State

variable {t : LoweringState} {v w : Var} {done : List Stmt} {first : Nat}

/-- A global of a region is known. -/
theorem Program.Named.knows {region : Region} (ht : t.program.Named) (hv : t.program.Has region v) :
    t.Knows v := by
  have hname := (ht _ v hv.lookup).1
  exact .inr (hname ▸ hv.lookup)

/-- Known variables are told apart by their numbers. -/
theorem LoweringState.Numbered.eq_of_same (hn : t.Numbered) (ht : t.Proper) (hv : t.Knows v) (hw : t.Knows w)
    (h : v.same w) : v = w := by
  have hid : v.id = w.id := beq_iff_eq.mp h
  rcases hv with hv | hv <;> rcases hw with hw | hw
  · exact List.inj_on_of_nodup_map ht.distinct hv hw hid
  · exact absurd hid.symm (hn.apart v hv _ w hw)
  · exact absurd hid (hn.apart w hw _ v hv)
  · have hname := hn.program.distinct _ _ v w hv hw hid
    exact Option.some.inj (hv.symm.trans (hname ▸ hw))

/-- The variables of a finished draft are those of the method. -/
theorem Draft.variables_finish (d : Draft) : d.finish.variables = d.variables := by
  simp [Flow.variables, Draft.finish, Draft.variables, List.append_assoc]

/-- The inputs of a method play the roles of inputs. -/
theorem LoweringState.Proper.role_of_input (ht : t.Proper) (hv : v ∈ t.draft.finish.inputs) :
    v ∈ t.draft.variables ∧ v.role ≠ .declared ∧ v.role ≠ .result ∧ v.role ≠ .temporary := by
  rw [← Draft.variables_finish]
  simp only [Flow.inputs, List.mem_append, Option.mem_toList, Array.mem_toList_iff, List.mem_filter,
    decide_eq_true_eq] at hv
  simp only [Flow.variables, List.mem_append, Option.mem_toList, Array.mem_toList_iff]
  rcases hv with (hv | hv) | ⟨hv, hrole⟩
  · simp [hv, (ht.receiver v hv).1]
  · obtain ⟨⟨index, hrole⟩, -⟩ := ht.params v hv
    have hparam : v ∈ t.draft.finish.params := hv
    simp [hparam, hrole]
  · simp [hv, hrole]

end State

namespace Flow.InOrder

variable {p : Program} {body : Body} {t : LoweringState} {vs : List Visit} {flow : Flow} {v : Var}

/-- What is mentioned is known. -/
theorem knows (h : flow.InOrder p body t vs) (hv : flow.Mentions v) : t.Knows v := by
  rcases hv with ⟨entry, hentry, hv⟩ | ⟨link, hlink, guard, hguard, hv⟩
  · obtain ⟨first, done, hconforms⟩ := h.conforms hentry
    rcases hconforms.mentions hv with hread | hset | ⟨region, hregion⟩
    · exact .inl hread.declared
    · exact .inl hset.declared
    · exact h.proper.named.knows hregion
  · obtain ⟨visit, -, -, hover⟩ := h.guards link hlink guard hguard
    exact .inl (hover.of_mem hv).declared

/-- What is read is known, and it is not the result. -/
theorem reads (h : flow.InOrder p body t vs) (hv : flow.Reads v) : t.Knows v ∧ v.role ≠ .result := by
  have hglobal {region : Region} (hregion : t.program.Has region v) : t.Knows v ∧ v.role ≠ .result :=
    ⟨h.proper.named.knows hregion, by simp [(h.proper.named _ v hregion.lookup).2]⟩
  rcases hv with ⟨entry, hentry, hv⟩ | ⟨link, hlink, guard, hguard, hv⟩
  · obtain ⟨first, done, hconforms⟩ := h.conforms hentry
    rcases hconforms.reads hv with hread | ⟨region, hregion⟩
    · exact ⟨.inl hread.declared, hread.kept⟩
    · exact hglobal hregion
  · obtain ⟨visit, -, -, hover⟩ := h.guards link hlink guard hguard
    exact ⟨.inl (hover.of_mem hv).declared, (hover.of_mem hv).kept⟩

/-- What is set is known, and it is no input. -/
theorem sets (h : flow.InOrder p body t vs) {entry : BlockId × Stmt} (hentry : entry ∈ flow.statements)
    (hv : v ∈ entry.2.defs) : t.Knows v ∧
      (v.role = .declared ∨ v.role = .result ∨ v.role = .temporary ∨ v.role = .global) := by
  obtain ⟨first, done, hconforms⟩ := h.conforms hentry
  rcases hconforms.sets hv with hset | ⟨region, hregion⟩
  · exact ⟨.inl hset.declared, hset.role.imp_right (Or.imp_right .inl)⟩
  · exact ⟨h.proper.named.knows hregion, by simp [(h.proper.named _ v hregion.lookup).2]⟩

end Flow.InOrder

namespace Session

/-- Whatever bodies were lowered and whatever was requested before, every lowering that succeeds gives a
closed control-flow graph, in which the variables keep to their roles. -/
theorem flowOf_closed {body : Body} {oracle : PredecessorOracle} {p q : Program} {flow : Flow}
    (hp : p.Reachable) (h : flowOf body oracle p = .ok flow q) : flow.Closed q := by
  obtain ⟨t, rfl, hordered⟩ := flowOf_ordered hp.sound h
  have hproper := hordered.proper
  have hvariables : flow.variables = t.draft.variables := by
    rw [hordered.finished, Draft.variables_finish]
  have heq {v w : Var} := hordered.numbered.eq_of_same (v := v) (w := w) hproper
  refine ⟨fun v hv => hvariables ▸ hordered.knows hv, hvariables ▸ hproper.distinct,
    fun v hv name w hw hsame => ?_, fun entry hentry v hv input hinput hsame => ?_,
    fun result hresult v hv hsame => ?_⟩
  · exact hordered.numbered.apart v (hvariables ▸ hv) name w hw (beq_iff_eq.mp hsame).symm
  · obtain ⟨hknown, hrole⟩ := hordered.sets hentry hv
    obtain ⟨hdeclared, hinput⟩ := hproper.role_of_input (hordered.finished ▸ hinput)
    have hsame := heq hknown (.inl hdeclared) hsame
    subst hsame
    have hglobal := hproper.role_ne_global hdeclared
    tauto
  · obtain ⟨hknown, hrole⟩ := hordered.reads hv
    have hresult : result ∈ t.draft.result := by
      rw [hordered.finished] at hresult
      exact hresult
    have hdeclared : result ∈ t.draft.variables := by simp [Draft.variables, Option.mem_def.mp hresult]
    rw [heq hknown (.inl hdeclared) hsame] at hrole
    exact hrole (hproper.result result hresult).1

/-- A method of an object that returns a field of it, or the hash of an exception that it catches. -/
def rolesExample : Body where
  method := ⟨"Cell", "get", [.boolean], .int⟩
  isStatic := false
  isSynchronized := false
  locals := #[⟨"this", .named "Cell"⟩, ⟨"safe", .boolean⟩, ⟨"problem", .named "Problem"⟩]
  code := #[⟨.identity 0 (.receiver (.named "Cell")), .unknown⟩, ⟨.identity 1 (.parameter 0 .boolean), .unknown⟩,
    ⟨.branch (.slot 1) 5, .unknown⟩, ⟨.identity 2 (.caughtException (.named "Problem")), .unknown⟩,
    ⟨.ret (.call .virtual ⟨"Problem", "hash", [], .int⟩ (some (.slot 2)) []), .unknown⟩,
    ⟨.ret (.field (.slot 0) ⟨"Cell", "value", .int⟩), .unknown⟩]

/-- The method has a receiver, a parameter, a result and a caught exception beside its locals, and the
program has one map for the field. -/
theorem flowOf_closed_roles : ∃ flow q,
    flowOf rolesExample rolesExample.predecessorOracle (.new .standard) = .ok flow q ∧
      flow.inputs.length = 3 ∧ flow.result.isSome ∧ flow.Closed q := by
  obtain ⟨flow, h, hinputs, hresult⟩ := exists_ok_with
    (r := flowOf rolesExample rolesExample.predecessorOracle (.new .standard))
    (P := fun flow => flow.inputs.length = 3 ∧ flow.result.isSome) (by decide +kernel)
  exact ⟨flow, _, h, hinputs, hresult, flowOf_closed (.new .standard) h⟩

end Session

end GuardedFlow
