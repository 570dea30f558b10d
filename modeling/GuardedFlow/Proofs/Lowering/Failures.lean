import GuardedFlow.Proofs.Lowering.Shape

/-!
# How a lowering fails

Some refusals guard against states that a pass never comes to: an edge that exists already, a node that
the graph does not have, a heap access to an operand that is no heap location, a query without a
destination. The invariant of `LoweringState.Pending` rules them out. A missing block is left, and it is
missing only after a call in the same instruction has ended the path.
-/

namespace GuardedFlow

/-- The call of a method that is known, as the table of idioms sees it. -/
def CallSite.of (kind : CallKind) (method : MethodSig) (hasResult : Bool) : List CallSite :=
  if kind = .dynamic then [] else [⟨method, hasResult⟩]

namespace Value

mutual

/-- The calls of known methods in an operand, at any depth. -/
def callSites : Value → List CallSite
  | slot _ | const _ | new _ | staticField _ | parameter .. | receiver _ | caughtException _ => []
  | unary _ v | cast _ v | instanceOf _ v | length v | field v _ | newArray _ v => v.callSites
  | binary _ v w | element v w => v.callSites ++ w.callSites
  | newMultiArray _ sizes => callSitesOf sizes
  | call kind method base args =>
    CallSite.of kind method true ++ callSites? base ++ callSitesOf args

/-- The calls of known methods in the operands of a list. -/
def callSitesOf : List Value → List CallSite
  | [] => []
  | v :: rest => v.callSites ++ callSitesOf rest

/-- The calls of known methods in an operand that may be absent. -/
def callSites? : Option Value → List CallSite
  | none => []
  | some v => v.callSites

end

end Value

/-- The calls of known methods in the operands of an operation, at any depth. -/
def Op.callSites {τ : Type} : Op τ → List CallSite
  | assign place source => place.callSites ++ source.callSites
  | identity _ v | branch v _ | ret v | monitorEnter v | monitorExit v | throw v => v.callSites
  | invoke call =>
    CallSite.of call.kind call.method false ++ Value.callSites? call.base ++ Value.callSitesOf call.args
  | tableSwitch key .. | lookupSwitch key .. => key.callSites
  | goto _ | retVoid | nop | breakpoint | subroutineReturn _ => []

/-- Some call is matched as an exit of the process or as the failure of a test. -/
def CallSite.Stops (idioms : List Idiom) (sites : List CallSite) : Prop :=
  ∃ site ∈ sites, Idiom.lookup idioms site = some .exit ∨ Idiom.lookup idioms site = some .testFailure

namespace CallSite.Stops

variable {idioms : List Idiom} {sites more : List CallSite}

/-- More sites after those that stop. -/
theorem left (h : Stops idioms sites) : Stops idioms (sites ++ more) := by
  obtain ⟨site, hsite, hkind⟩ := h
  exact ⟨site, List.mem_append_left _ hsite, hkind⟩

/-- More sites before those that stop. -/
theorem right (h : Stops idioms more) : Stops idioms (sites ++ more) := by
  obtain ⟨site, hsite, hkind⟩ := h
  exact ⟨site, List.mem_append_right _ hsite, hkind⟩

end CallSite.Stops

/-- The end of the path in a call comes from its idiom or from one of its operands. -/
theorem Call.pathEnd_isSome {idioms : List Idiom} {call : Call (Option PathEnd)} {hasResult : Bool}
    (h : (call.pathEnd idioms hasResult).isSome = true) :
    CallSite.Stops idioms (CallSite.of call.kind call.method hasResult) ∨
      call.base.join.isSome = true ∨ (call.args.foldr Option.or none).isSome = true := by
  unfold Call.pathEnd at h
  by_cases hkind : call.kind = .dynamic
  · simp only [hkind, if_true, Option.isSome_or, Bool.or_eq_true] at h
    exact .inr h.symm
  · simp only [hkind, if_false] at h
    have hsite : ⟨call.method, hasResult⟩ ∈ CallSite.of call.kind call.method hasResult := by
      simp [CallSite.of, hkind]
    cases hlookup : Idiom.lookup idioms ⟨call.method, hasResult⟩ with
    | none =>
      simp only [hlookup, Option.isSome_or, Bool.or_eq_true] at h
      right
      rcases h with h | h
      · exact .inr h
      · left
        split at h
        · exact h
        · cases h
    | some kind =>
      cases kind with
      | exit => exact .inl ⟨_, hsite, .inl hlookup⟩
      | testFailure => exact .inl ⟨_, hsite, .inr hlookup⟩
      | assertion | precondition =>
        simp only [hlookup] at h
        exact .inr (.inr h)
      | stringLength =>
        simp only [hlookup] at h
        split at h
        · exact .inr (.inl h)
        · cases h
      | getClass =>
        simp only [hlookup] at h
        exact .inr (.inl h)
      | isAssignableFrom | cast | isInstance =>
        simp only [hlookup, Option.isSome_or, Bool.or_eq_true] at h
        exact .inr h

namespace Value

variable {idioms : List Idiom}

mutual

/-- Where an operand ends the path, it contains a call that does. -/
theorem stops_of_pathEnd : ∀ v : Value, (v.pathEnd idioms).isSome = true →
    CallSite.Stops idioms v.callSites
  | unary _ v, h | cast _ v, h | instanceOf _ v, h | length v, h | field v _, h => stops_of_pathEnd v h
  | binary _ v w, h | element v w, h => by
    rw [pathEnd, Option.isSome_or, Bool.or_eq_true] at h
    rw [callSites]
    rcases h with h | h
    · exact (stops_of_pathEnd v h).left
    · exact (stops_of_pathEnd w h).right
  | call kind method base args, h => by
    rw [callSites]
    rcases Call.pathEnd_isSome h with h | h | h
    · exact h.left.left
    · exact (stops_of_pathEnd? base h).right.left
    · exact (stops_of_pathEnds args h).right

/-- Operands that end the path have a call that stops. -/
theorem stops_of_pathEnds : ∀ vs : List Value,
    ((pathEnds idioms vs).foldr Option.or none).isSome = true → CallSite.Stops idioms (callSitesOf vs)
  | v :: rest, h => by
    rw [pathEnds, List.foldr_cons, Option.isSome_or, Bool.or_eq_true] at h
    rw [callSitesOf]
    rcases h with h | h
    · exact (stops_of_pathEnd v h).left
    · exact (stops_of_pathEnds rest h).right

/-- An operand that ends the path has a call that stops. -/
theorem stops_of_pathEnd? : ∀ v : Option Value,
    (pathEnd? idioms v).join.isSome = true → CallSite.Stops idioms (callSites? v)
  | some v, h => stops_of_pathEnd v h

end

end Value

/-- Where an operation ends the path, and not by a return, it contains a call that does. -/
theorem Op.stops_of_pathEnd {idioms : List Idiom} (op : Op Nat)
    (h : (op.pathEnd idioms).isSome = true) :
    op = .retVoid ∨ (∃ value, op = .ret value) ∨ CallSite.Stops idioms op.callSites := by
  cases op with
  | retVoid => exact .inl rfl
  | ret value => exact .inr (.inl ⟨value, rfl⟩)
  | assign place source =>
    right; right
    unfold Op.pathEnd at h
    dsimp only at h
    split at h
    · rw [Option.isSome_or, Bool.or_eq_true] at h
      rcases h with h | h
      · exact (Value.stops_of_pathEnd source h).right
      · exact (Value.stops_of_pathEnd place h).left
    · split at h
      · exact (Value.stops_of_pathEnd _ h).right
      · exact (Value.stops_of_pathEnd source h).right
  | identity _ v | branch v _ | monitorEnter v | monitorExit v =>
    exact .inr (.inr (Value.stops_of_pathEnd v h))
  | invoke call =>
    right; right
    rcases Call.pathEnd_isSome h with h | h | h
    · exact h.left.left
    · exact (Value.stops_of_pathEnd? call.base h).right.left
    · exact (Value.stops_of_pathEnds call.args h).right
  | _ => cases h

namespace Lower

variable {α β : Type} {body : Body} {index : Nat} {s t : LoweringState} {source : BlockId} {e : Error}

/-- A step that is known to answer does not fail. -/
theorem not_error {m : Lower α} {a : α} {u : LoweringState} (hok : m s = .ok a u)
    (h : m s = .error e t) : False := by
  rw [hok] at h
  cases h

/-- A jump out of the code is refused. -/
theorem checkTarget_error {target : Nat} (h : checkTarget target s = .error e t) : s.Refuses false e := by
  rw [checkTarget_run] at h
  split at h
  · cases h
    exact .refusal _ rfl
  · cases h

/-- The block of an instruction can be reached from the open block. -/
theorem connect_located {target : Nat} {other : BlockId} {d : Draft} (h : s.Pending body index)
    (hopen : s.openBlock = some source) (hlocated : s.draft.Located target other d) (guard : Guard) :
    connect source other guard { s with draft := d } = .ok ()
      { s with draft := { d with graph := d.graph.link source other guard } } := by
  obtain ⟨hbehind, hfree⟩ := h.openBlock source hopen
  apply connect_free (s := { s with draft := d })
  · exact hlocated.consistent h.awaits.consistent
  · exact Nat.lt_of_lt_of_le hbehind.lt hlocated.nodeCount
  · exact (hlocated.valid h.awaits.mapped).1
  · simp [hlocated.linksFrom, hfree]

/-- The edge of a jump can be added. -/
theorem goto_edge {target : Nat} (h : s.Pending body index) (hopen : s.openBlock = some source)
    (hrun : (do
      let source ← currentBlock
      let block ← blockAt target
      connect source block none
      setOpen none : Lower Unit) s = .error e t) : False := by
  rcases bind_error hrun with hblock | ⟨block, v, hblock, h₁⟩
  · rw [currentBlock_run, hopen] at hblock
    cases hblock
  obtain ⟨rfl, hsame⟩ := currentBlock_ok hblock
  rcases bind_error h₁ with hother | ⟨other, w, hother, h₂⟩
  · cases hother
  rw [blockAt_run] at hother
  cases hother
  rcases bind_error h₂ with hconnect | ⟨_, x, _, h₃⟩
  · exact not_error (connect_located h hsame (v.draft.blockAt_located target) none) hconnect
  · cases h₃

/-- A jump fails only if its target is outside of the stream. -/
theorem goto_refuses {target : Nat} (h : s.Pending body index) (hopen : s.openBlock = some source)
    (hrun : goto target s = .error e t) : s.Refuses false e := by
  rcases bind_error hrun with hcheck | ⟨_, u, hcheck, hedge⟩
  · exact checkTarget_error hcheck
  · obtain ⟨rfl, -⟩ := checkTarget_ok hcheck
    exact (goto_edge h hopen hedge).elim

/-- The second edge of a conditional jump can be added if the edges from the block lead elsewhere. -/
theorem fallThrough_edge {guard : Expr} {next : Option Nat} (h : s.draft.Awaits body index)
    (hlt : source < s.draft.graph.nodeCount)
    (hsink : ∀ link ∈ s.draft.graph.linksFrom source, link.target ≠ Flow.sink)
    (hrest : ∀ i rest d, next = some i → s.draft.Located i rest d →
      ∀ link ∈ s.draft.graph.linksFrom source, link.target ≠ rest)
    (hrun : fallThrough source guard next s = .error e t) : False := by
  cases next with
  | none =>
    rcases bind_error hrun with hfails | ⟨_, u, -, hset⟩
    · exact not_error (connect_free h.consistent hlt h.mapped.sink hsink _) hfails
    · cases hset
  | some i =>
    rcases bind_error hrun with hblock | ⟨rest, u, hblock, h₁⟩
    · cases hblock
    rw [blockAt_run] at hblock
    cases hblock
    have hlocated := s.draft.blockAt_located i
    rcases bind_error h₁ with hfails | ⟨_, v, -, hset⟩
    · refine not_error (connect_free (hlocated.consistent h.consistent)
        (Nat.lt_of_lt_of_le hlt hlocated.nodeCount) (hlocated.valid h.mapped).1 (fun link hlink => ?_) _) hfails
      change link ∈ (s.draft.blockAt i).2.graph.linksFrom source at hlink
      rw [hlocated.linksFrom] at hlink
      exact hrest i _ _ rfl hlocated link hlink
    · cases hset

/-- Both edges of a conditional jump can be added, because they lead to different blocks. -/
theorem split_edges {guard : Expr} {target : Nat} (h : s.Pending body index)
    (hopen : s.openBlock = some source) (htarget : target < body.code.size)
    (hnext : body.next? index ≠ some target)
    (hrun : split source guard target (body.next? index) s = .error e t) : False := by
  obtain ⟨hbehind, hfree⟩ := h.openBlock source hopen
  rcases bind_error hrun with hblock | ⟨other, u, hblock, h₁⟩
  · cases hblock
  rw [blockAt_run] at hblock
  cases hblock
  have hlocated := s.draft.blockAt_located target
  generalize (s.draft.blockAt target).1 = other at hlocated h₁
  generalize (s.draft.blockAt target).2 = d at hlocated h₁
  have hconnect := connect_located h hopen hlocated (some guard)
  rcases bind_error h₁ with hfails | ⟨_, v, hok, h₂⟩
  · exact not_error hconnect hfails
  rw [hconnect] at hok
  cases hok
  obtain ⟨hother, hsink⟩ := hlocated.valid h.awaits.mapped
  have hfirst := (hlocated.awaits h.awaits.later htarget).link (hlocated.behind hbehind) hother (some guard)
  have hlinks {link : Link Guard}
      (hlink : link ∈ (d.graph.link source other (some guard)).linksFrom source) : link.target = other := by
    rw [Graph.linksFrom_link, hlocated.linksFrom, hfree, if_pos rfl, List.nil_append,
      List.mem_singleton] at hlink
    rw [hlink]
  refine fallThrough_edge hfirst (hlocated.behind hbehind).lt (fun link hlink => ?_)
    (fun i rest f hi hrest link hlink => ?_) h₂
  · rw [hlinks hlink]
    exact hsink
  · rw [hlinks hlink]
    exact hlocated.ne h.awaits.mapped htarget hfirst.mapped hrest (Body.next?_eq_some.mp hi).2
      fun heq => hnext (heq ▸ hi)

/-- A conditional jump fails if its target is outside of the stream or if its condition fails. It misses
a block only if the condition ended the path. -/
theorem branch_refuses {condition : Value} {target : Nat} (h : s.Pending body index)
    (hopen : s.openBlock = some source) (hrun : branch index condition target s = .error e t) :
    s.Refuses (condition.pathEnd s.program.idioms).isSome e := by
  rw [branch_eq] at hrun
  rcases bind_error hrun with hcheck | ⟨_, s', hcheck, h₁⟩
  · exact (checkTarget_error hcheck).mono (by simp)
  obtain ⟨rfl, htarget⟩ := checkTarget_ok hcheck
  rcases bind_error h₁ with hguard | ⟨guard, u, hguard, h₂⟩
  · exact (operand_ends condition).fails _ _ _ rfl h.ready hguard
  obtain ⟨out, hemits, -⟩ := (operand_ends condition).ok rfl hguard
  have hbody : u.draft.body = body := hemits.body.trans h.awaits.mapped.lowers
  by_cases hnext : u.draft.body.next? index = some target
  · rw [fork_next hnext] at h₂
    cases h₂
  cases hblock : u.openBlock with
  | none =>
    -- a block was open before, so it was the condition that ended the path
    rw [fork_closed hnext hblock] at h₂
    cases h₂
    rw [← Bool.or_false (Option.isSome _)]
    exact LoweringState.Refuses.after (.closed (.inl hblock)) hemits
  | some block =>
    rw [fork_open hnext hblock, hbody] at h₂
    obtain ⟨hnone, hsource⟩ := hemits.still_open hblock
    rw [hnone] at hemits
    rw [h.awaits.mapped.lowers] at htarget
    exact (split_edges (h.emits hemits hsource) hblock htarget (hbody ▸ hnext) h₂).elim

/-- A return of a value misses a block only if the value ended the path. -/
theorem returnValue_refuses {value : Value} (hs : s.Ready)
    (hrun : returnValue (operand value) s = .error e t) :
    s.Refuses (value.pathEnd s.program.idioms).isSome e := by
  rcases bind_error hrun with hdraft | ⟨_, _, hdraft, h₁⟩
  · cases hdraft
  cases hdraft
  cases hresult : s.draft.result with
  | none =>
    simp only [hresult] at h₁
    cases h₁
    exact .refusal _ rfl
  | some result =>
    simp only [hresult] at h₁
    rcases bind_error h₁ with hvalue | ⟨_, u, hvalue, h₂⟩
    · exact (operand_ends value).fails _ _ _ rfl hs hvalue
    obtain ⟨_, hsu, -⟩ := (operand_ends value).ok rfl hvalue
    have hrest : u.Refuses false e := by
      rcases bind_error h₂ with hassign | ⟨_, w, hassign, hreturn⟩
      · exact emitHere_refuses (hsu.ready hs) hassign
      · obtain ⟨_, _, huw, rfl⟩ :=
          (yields_emitHere (Q := fun _ fin _ _ => fin = none) fun _ _ => rfl).ok _ _ hassign
        exact (returnVoid_refuses (huw.ready (hsu.ready hs)) hreturn).after huw
    simpa using hrest.after hsu

/-- An operation misses a block only if some call in it ended the path. -/
theorem operation_refuses {op : Op Nat} (h : s.Pending body index) (hopen : s.openBlock = some source)
    (hrun : operation index op s = .error e t) : ∃ ended, s.Refuses ended e ∧
      (ended = true → CallSite.Stops s.program.idioms op.callSites) := by
  have hplain (hjump : op.jumpTargets = []) (hvoid : op ≠ .retVoid) (hret : ∀ value, op ≠ .ret value) :
      ∃ ended, s.Refuses ended e ∧ (ended = true → CallSite.Stops s.program.idioms op.callSites) := by
    refine ⟨_, (operation_ends index op hjump).fails _ _ _ rfl h.ready hrun, fun hended => ?_⟩
    rcases op.stops_of_pathEnd hended with hop | ⟨value, hop⟩ | hstops
    · exact absurd hop hvoid
    · exact absurd hop (hret value)
    · exact hstops
  cases op with
  | goto target => exact ⟨false, goto_refuses h hopen hrun, by simp⟩
  | branch condition target =>
    exact ⟨_, branch_refuses h hopen hrun, Value.stops_of_pathEnd condition⟩
  | ret value =>
    exact ⟨_, returnValue_refuses h.ready hrun, Value.stops_of_pathEnd value⟩
  | retVoid => exact ⟨false, returnVoid_refuses h.ready hrun, by simp⟩
  | tableSwitch | lookupSwitch =>
    cases hrun
    exact ⟨false, .refusal _ rfl, by simp⟩
  | _ => exact hplain rfl (by simp) (by simp)

/-- The open block can lead to the one that starts at an instruction. -/
theorem leadTo_edge {target : Nat} {other : BlockId} {d : Draft} (h : s.Pending body index)
    (hopen : s.openBlock = some source) (hlocated : s.draft.Located target other d)
    (hrun : leadTo source other { s with draft := d } = .error e t) : False := by
  rcases bind_error hrun with hconnect | ⟨_, u, -, hset⟩
  · exact not_error (connect_located h hopen hlocated none) hconnect
  · cases hset

/-- Going on from the open block does not fail. -/
theorem proceed_answers {oracle : PredecessorOracle} (h : s.Pending body index)
    (hopen : s.openBlock = some source)
    (hrun : proceed oracle index source (s.draft.blockAt? index) s = .error e t) : False := by
  cases hstarts : s.draft.blockAt? index with
  | some other =>
    rw [hstarts, proceed] at hrun
    split at hrun
    · exact leadTo_edge h hopen (.old other hstarts) hrun
    · cases hrun
  | none =>
    rw [hstarts, proceed] at hrun
    split at hrun
    · rcases bind_error hrun with hother | ⟨other, u, hother, hlead⟩
      · cases hother
      rw [blockAt_run] at hother
      cases hother
      exact leadTo_edge h hopen (s.draft.blockAt_located index) hlead
    · cases hrun

/-- Entering an instruction does not fail. -/
theorem enter_answers (oracle : PredecessorOracle) (h : s.Pending body index) :
    ∃ t, enter oracle index s = .ok () t := by
  have hmoved : LoweringState.Pending body index { s with draft := s.draft.moveTo index } := by
    refine ⟨h.awaits.congr rfl rfl rfl, h.exits, fun block hblock => ?_⟩
    obtain ⟨⟨hlt, hne, hstarts⟩, hfree⟩ := h.openBlock block hblock
    exact ⟨⟨hlt, hne, hstarts⟩, hfree⟩
  cases hrun : enter oracle index s with
  | ok _ t => exact ⟨t, rfl⟩
  | error e t =>
    exfalso
    cases hopen : s.openBlock with
    | none =>
      rw [enter_closed hopen] at hrun
      rcases bind_error hrun with hblock | ⟨block, u, -, hset⟩
      · cases hblock
      · cases hset
    | some source =>
      rw [enter_open hopen] at hrun
      exact proceed_answers hmoved hopen hrun

/-- Closing a stream does not fail. -/
theorem close_answers (h : s.Pending body index)
    (hempty : body.code.isEmpty → s.draft.graph.edges = #[]) : ∃ t, close body s = .ok () t := by
  have hsink := h.awaits.mapped.sink
  cases hrun : close body s with
  | ok _ t => exact ⟨t, rfl⟩
  | error e t =>
    exfalso
    unfold close at hrun
    by_cases hnone : body.code.isEmpty
    · simp only [hnone, if_true] at hrun
      have hfree : s.draft.graph.linksFrom Flow.entry = [] := by
        rw [Graph.linksFrom, hempty hnone]
        rfl
      have hentry : Flow.entry < s.draft.graph.nodeCount := Nat.lt_of_succ_lt hsink
      exact not_error (connect_free h.awaits.consistent hentry hsink (by simp [hfree]) none) hrun
    · simp only [hnone] at hrun
      rcases bind_error hrun with hget | ⟨u, v, hget, h₁⟩
      · cases hget
      cases hget
      cases hopen : s.openBlock with
      | none =>
        simp only [hopen] at h₁
        cases h₁
      | some block =>
        obtain ⟨hbehind, hfree⟩ := h.openBlock block hopen
        simp only [hopen] at h₁
        rcases bind_error h₁ with hset | ⟨_, w, hset, hconnect⟩
        · cases hset
        cases hset
        exact not_error (connect_free (s := { s with openBlock := none }) h.awaits.consistent hbehind.lt
          hsink (by simp [hfree]) none) hconnect

/-- A step that enters an instruction makes it the current one. -/
theorem enter_current {oracle : PredecessorOracle} (hrun : enter oracle index s = .ok () t) :
    t.draft.current = some index := by
  have hlocated {block : BlockId} {d : Draft} (h : (s.draft.moveTo index).Located index block d) :
      d.current = some index := by
    cases h <;> rfl
  rcases enter_ok hrun with ⟨-, block, d, h, rfl⟩ | ⟨block, -, rfl, -⟩ | ⟨source, block, d, -, h, -, -, rfl⟩
  · exact hlocated h
  · rfl
  · have hcurrent := hlocated h
    exact hcurrent

end Lower

/-- An error that the lowering of a body can end with: no internal check has failed, and a block was
missing only after a call in the same instruction ended the path. -/
structure Admissible (body : Body) (idioms : List Idiom) (e : Error) : Prop where
  graph : ∀ fault, e ≠ .graph fault
  edge : ∀ source target site, e ≠ .lowering (.duplicateEdge source target) site
  place : ∀ value site, e ≠ .lowering (.notHeapLocation value) site
  query : ∀ site, e ≠ .lowering .queryWithoutResult site
  closed : ∀ site, e = .lowering .noOpenBlock site → ∃ index instr,
    body.code[index]? = some instr ∧ site = ⟨body.describe index, instr.location⟩ ∧
    ∃ call ∈ instr.op.callSites,
      Idiom.lookup idioms call = some .exit ∨ Idiom.lookup idioms call = some .testFailure

namespace LoweringState

variable {body : Body} {first : Nat} {s t : LoweringState} {e : Error}

/-- What a state refuses is admissible if the end of the path is due to a call. -/
theorem Refuses.admissible {instr : Instr} {ended : Bool} (h : s.Refuses ended e)
    (hbody : s.draft.body = body) (hcurrent : s.draft.current = some first)
    (hinstr : body.code[first]? = some instr) {block : BlockId} (hopen : s.openBlock = some block)
    {idioms : List Idiom} (hended : ended = true → CallSite.Stops idioms instr.op.callSites) :
    Admissible body idioms e := by
  have hsite : s.draft.site = ⟨body.describe first, instr.location⟩ := by
    simp only [Draft.site, Draft.location, hcurrent, hbody, hinstr, Option.map_some, Option.getD_some]
  cases h with
  | conflict name requested declared =>
    exact ⟨by simp, by simp, by simp, by simp, by simp⟩
  | refusal fault h =>
    refine ⟨by simp, ?_, ?_, ?_, ?_⟩
    · rintro source target site ⟨⟩
      cases h
    · rintro value site ⟨⟩
      cases h
    · rintro site ⟨⟩
      cases h
    · rintro site ⟨⟩
      cases h
  | closed h =>
    refine ⟨by simp, by simp, by simp, by simp, fun site heq => ?_⟩
    cases heq
    rcases h with h | h
    · rw [hopen] at h
      contradiction
    · exact ⟨first, instr, hinstr, hsite, hended h⟩

/-- A state of a pass is in order. -/
theorem Pending.standing (h : s.Pending body first) : s.Standing body where
  mapped := h.awaits.mapped
  openBlock block hopen := ⟨(h.openBlock block hopen).1.lt, (h.openBlock block hopen).1.ne⟩

/-- The failures of a pass over instructions in order. -/
theorem Pending.failures {oracle : PredecessorOracle} {instrs : List Instr} (h : s.Pending body first)
    (hcode : body.code.toList.drop first = instrs)
    (hrun : Lower.instructions oracle instrs first s = .error e t) :
    Admissible body s.program.idioms e := by
  induction instrs generalizing first s with
  | nil => cases hrun
  | cons instr rest ih =>
    obtain ⟨hget, hdrop, -⟩ := body.code_of_drop hcode
    obtain ⟨hlt, -⟩ := Array.getElem?_eq_some_iff.mp hget
    obtain ⟨entered, henter⟩ := Lower.enter_answers oracle h
    obtain ⟨hentered, block, hopen⟩ := h.enter hlt henter
    obtain ⟨-, hprogram, -⟩ := Lower.enter_arrives h.standing hlt henter
    rcases Lower.bind_error hrun with hinstr | ⟨_, left, hinstr, hrest⟩
    · rcases Lower.bind_error hinstr with hfails | ⟨_, u, henter', hop⟩
      · exact absurd hfails fun hfails => Lower.not_error henter hfails
      · rw [henter] at henter'
        cases henter'
        obtain ⟨ended, hrefuses, hended⟩ := Lower.operation_refuses hentered hopen hop
        rw [hprogram] at hended
        exact hrefuses.admissible hentered.awaits.mapped.lowers (Lower.enter_current henter) hget hopen
          hended
    · obtain ⟨_, u, henter', hop⟩ := Lower.bind_ok hinstr
      rw [henter] at henter'
      cases henter'
      obtain ⟨-, hidioms, -⟩ := Lower.operation_departs hentered.standing hopen hop
      have hfails := ih (hentered.operation hopen hop) hdrop hrest
      rw [hidioms, hprogram] at hfails
      exact hfails

end LoweringState

namespace Session

/-- A lowering fails in the pass over the instructions, never where the stream is closed. -/
theorem flowOf_error {body : Body} {oracle : PredecessorOracle} {p q : Program} {e : Error}
    (h : flowOf body oracle p = .error e q) :
    ∃ t, Lower.instructions oracle body.code.toList 0 (startOf body p) = .error e t ∧ t.program = q := by
  rw [flowOf_run] at h
  cases hstream : Lower.stream oracle body (startOf body p) with
  | ok _ t =>
    rw [hstream] at h
    cases h
  | error e' t =>
    rw [hstream] at h
    cases h
    rcases Lower.bind_error hstream with hfails | ⟨_, u, hrun, hclose⟩
    · exact ⟨t, hfails, rfl⟩
    · obtain ⟨hpending, hempty⟩ := pending_passed hrun
      obtain ⟨v, hanswer⟩ := Lower.close_answers hpending hempty
      exact absurd hclose fun hclose => Lower.not_error hanswer hclose

/-- The internal checks of a lowering do not fail, and a block is missing only at an instruction with a
call that exits the process or fails a test. -/
theorem flowOf_failures (body : Body) (oracle : PredecessorOracle) (p : Program) {e : Error}
    {q : Program} (h : flowOf body oracle p = .error e q) : Admissible body p.idioms e := by
  obtain ⟨t, hfails, -⟩ := flowOf_error h
  exact (pending_startOf body p).failures rfl hfails

/-- The value of a return is a call that exits the process. -/
def exitExample : Body where
  method := ⟨"Exit", "run", [], .int⟩
  isStatic := true
  isSynchronized := false
  locals := #[]
  code := #[⟨.ret (.call .static ⟨"java.lang.System", "exit", [.int], .prim .void⟩ none
    [.const (.int 1)]), .unknown⟩]

/-- A value that is returned after the process was exited has no block to go to. -/
theorem flowOf_failures_exit : ∃ site q,
    flowOf exitExample exitExample.predecessorOracle (.new .standard) =
      .error (.lowering .noOpenBlock site) q ∧
    Admissible exitExample (Program.new .standard).idioms (.lowering .noOpenBlock site) := by
  have hmissing : (match flowOf exitExample exitExample.predecessorOracle (.new .standard) with
      | .error (.lowering .noOpenBlock _) _ => true
      | _ => false) = true := by decide +kernel
  split at hmissing
  · rename_i site q h
    exact ⟨site, q, h, flowOf_failures _ _ _ h⟩
  · contradiction

end Session

end GuardedFlow
