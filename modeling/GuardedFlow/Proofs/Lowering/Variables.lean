import GuardedFlow.Program.Batch
import GuardedFlow.Proofs.Lowering.PathEnds
import GuardedFlow.Proofs.Lowering.Visits

/-!
# The variables of a lowering

The variables of a body are told apart from each other and from the globals of the program by their
roles, and from each other and all later variables by their numbers: `LoweringState.Proper`. Every
lowering starts in a proper state, and every state of a lowering continues the one before it, whether a
step succeeds or fails (`Lower.Keeps`).
-/

namespace GuardedFlow

namespace VarSupply

/-- Minted variables have the requested roles and numbers that were not used before. -/
theorem mem_mintAll {supply : VarSupply} {requests : List (String × Ty × VarRole)} {v : Var}
    (h : v ∈ (supply.mintAll requests).1) : (∃ request ∈ requests, v.role = request.2.2) ∧
      supply.next ≤ v.id ∧ v.id < (supply.mintAll requests).2.next := by
  induction requests generalizing supply with
  | nil => cases h
  | cons request rest ih =>
    have hmono (supply : VarSupply) : supply.next ≤ (supply.mintAll rest).2.next := by
      clear ih h
      induction rest generalizing supply with
      | nil => exact Nat.le_refl _
      | cons request rest ih => exact Nat.le_trans (Nat.le_succ _) (ih _)
    rcases List.mem_cons.mp h with rfl | h
    · exact ⟨⟨request, List.mem_cons_self, rfl⟩, Nat.le_refl _, hmono ⟨supply.next + 1⟩⟩
    · obtain ⟨⟨other, hother, hrole⟩, hlow, hhigh⟩ := ih h
      exact ⟨⟨other, List.mem_cons_of_mem _ hother, hrole⟩, Nat.le_of_succ_le hlow, hhigh⟩

/-- Minting uses up one number for each variable. -/
theorem next_mintAll (supply : VarSupply) (requests : List (String × Ty × VarRole)) :
    (supply.mintAll requests).2.next = supply.next + requests.length := by
  induction requests generalizing supply with
  | nil => rfl
  | cons request rest ih =>
    have hrest := ih ⟨supply.next + 1⟩
    rw [List.length_cons, ← Nat.succ_add_eq_add_succ]
    exact hrest

/-- Minting uses up numbers. -/
theorem next_le_mintAll (supply : VarSupply) (requests : List (String × Ty × VarRole)) :
    supply.next ≤ (supply.mintAll requests).2.next := by
  rw [next_mintAll]
  exact Nat.le_add_right _ _

/-- Minted variables are numbered one after another. -/
theorem map_id_mintAll (supply : VarSupply) (requests : List (String × Ty × VarRole)) :
    (supply.mintAll requests).1.map Var.id = List.range' supply.next requests.length := by
  induction requests generalizing supply with
  | nil => rfl
  | cons request rest ih =>
    have hrest := ih ⟨supply.next + 1⟩
    exact congrArg (supply.next :: ·) hrest

/-- At most one variable is minted for at most one request. -/
theorem toList_head?_mintAll (supply : VarSupply) {requests : List (String × Ty × VarRole)}
    (h : requests.length ≤ 1) : (supply.mintAll requests).1.head?.toList =
      (supply.mintAll requests).1 := by
  match requests, h with
  | [], _ => rfl
  | [_], _ => rfl

end VarSupply

namespace Body

/-- The request for the variable that returned values are assigned to, unless there are none. -/
def resultRequests (body : Body) : List (String × Ty × VarRole) :=
  if body.method.result.isVoid then [] else [("$ret", body.method.result, .result)]

/-- The request for the receiver, unless there is none. -/
def receiverRequests (body : Body) : List (String × Ty × VarRole) :=
  if body.isStatic then [] else [("this", .named body.method.owner, .receiver)]

/-- The requests for the parameters. -/
def paramRequests (body : Body) : List (String × Ty × VarRole) :=
  body.method.params.zipIdx.map fun (ty, index) => (s!"$param{index}", ty, .parameter index)

/-- The requests for the locals. -/
def localRequests (body : Body) : List (String × Ty × VarRole) :=
  body.locals.toList.map fun decl => (decl.name, decl.ty, .declared)

variable (body : Body) {request : String × Ty × VarRole}

/-- A variable for the result has that role. -/
theorem resultRequests_role (h : request ∈ body.resultRequests) : request.2.2 = .result := by
  unfold resultRequests at h
  split at h
  · cases h
  · rw [List.mem_singleton.mp h]

/-- There is at most one variable for the result. -/
theorem length_resultRequests : body.resultRequests.length ≤ 1 := by
  unfold resultRequests
  split <;> simp

/-- A variable for the receiver has that role. -/
theorem receiverRequests_role (h : request ∈ body.receiverRequests) : request.2.2 = .receiver := by
  unfold receiverRequests at h
  split at h
  · cases h
  · rw [List.mem_singleton.mp h]

/-- There is at most one variable for the receiver. -/
theorem length_receiverRequests : body.receiverRequests.length ≤ 1 := by
  unfold receiverRequests
  split <;> simp

end Body

namespace Lower

variable {α β : Type}

/-- Every run of a step continues the state that it starts in, and fails as steps do. -/
def Keeps (m : Lower α) : Prop :=
  ∀ s, match m s with
    | .ok _ t => Continues s t
    | .error e t => Continues s t ∧ t.Faults e

namespace Keeps

variable {m : Lower α} {f : α → Lower β} {s t : LoweringState}

/-- A step that keeps the draft in order continues it when it answers. -/
theorem ok {a : α} (h : Keeps m) (hrun : m s = .ok a t) : Continues s t := by
  have hs := h s
  rw [hrun] at hs
  exact hs

/-- A step that keeps the draft in order continues it when it fails, too. -/
theorem error {e : Error} (h : Keeps m) (hrun : m s = .error e t) : Continues s t ∧ t.Faults e := by
  have hs := h s
  rw [hrun] at hs
  exact hs

/-- An answer keeps the draft. -/
theorem pure (a : α) : Keeps (pure a) := .refl

/-- Steps one after another keep the draft in order. -/
theorem bind (hm : Keeps m) (hf : ∀ a, Keeps (f a)) : Keeps (m >>= f) := fun s => by
  rw [bind_run]
  cases hs : m s with
  | error e t => exact hm.error hs
  | ok a t =>
    have hst := hm.ok hs
    have hrest := hf a t
    dsimp only
    cases ht : f a t with
    | ok b u =>
      rw [ht] at hrest
      exact hst.trans hrest
    | error e u =>
      rw [ht] at hrest
      exact ⟨hst.trans hrest.1, hrest.2⟩

/-- A step that appends statements keeps what a lowering keeps. -/
theorem of_yields {Q : LoweringState → List Stmt → Option PathEnd → α → LoweringState → Prop}
    (h : ∀ s, Yields m s (Q s)) : Keeps m := fun s => by
  cases hs : m s with
  | ok a t =>
    obtain ⟨_, _, hemits, -⟩ := (h s).ok a t hs
    exact hemits.toContinues
  | error e t => exact (h s).error e t hs

/-- A step with events keeps what a lowering keeps. -/
theorem of_traces (events : List Idiom → List Event) {P : LoweringState → α → Prop}
    (h : ∀ s, Traces s m (events s.program.idioms) (P s)) : Keeps m :=
  of_yields fun s => (h s).yields s (.refl s)

/-- Steps between two jumps that have no other postcondition here. -/
theorem of_steps (h : ∀ s, Yields m s fun _ _ _ _ => True) : Keeps m := of_yields h

/-- A statement keeps the variables. -/
theorem emit (stmt : Stmt) : Keeps (emit stmt) := of_steps fun _ => yields_emit fun _ _ => trivial

/-- Reading the location keeps the draft. -/
theorem location : Keeps location := .refl

/-- A fresh temporary is added with a number of its own. -/
theorem freshTemp (stem : String) (ty : Ty) : Keeps (freshTemp stem ty) :=
  of_steps fun _ => yields_freshTemp fun _ _ _ _ => trivial

/-- The caught exception is added once, with a number of its own. -/
theorem caughtException (ty : Ty) : Keeps (caughtException ty) :=
  of_steps fun _ => yields_caughtException (fun _ _ => trivial) fun _ _ _ _ _ => trivial

/-- Asking for a method adds to the program only. -/
theorem resolve (sig : MethodSig) : Keeps (resolve sig) := of_steps fun _ => yields_resolve trivial

/-- Asking for an array class adds to the program only. -/
theorem arrayClass (element : Ty) : Keeps (arrayClass element) := of_steps fun _ => yields_arrayClass trivial

/-- A report adds to the log only. -/
theorem report (severity : Severity) (category : Category) (message : String) :
    Keeps (report severity category message) := of_steps fun _ => yields_report fun _ => trivial

/-- Marking the use of monitors keeps the variables. -/
theorem usesMonitors :
    Keeps (modify fun s : LoweringState => { s with draft := { s.draft with usesMonitors := true } }) :=
  of_steps fun _ => yields_usesMonitors trivial

/-- A request that comes down to one global. -/
theorem request {session : Session α} (name : Program → String) (ty : Program → Ty) (answer : Var → α)
    (h : ∀ p, session p = (do return answer (← Session.global (name p) (ty p))) p) :
    Keeps (request session) := of_steps fun s =>
  yields_global (name s.program) (ty s.program) answer (h s.program) fun _ _ _ _ _ => trivial

/-- Reading the state keeps the draft. -/
theorem get : Keeps (get : Lower LoweringState) := .refl

/-- A failure that is no conflict keeps the draft. -/
theorem fail (fault : Fault) (h : fault.isConflict = false) :
    Keeps (fail fault : Lower α) := fun s => ⟨.refl s, .check fault h⟩

/-- Reading the draft keeps it. -/
theorem draft : Keeps draft := .refl

/-- Opening and closing blocks keeps the draft. -/
theorem setOpen (block : Option BlockId) : Keeps (setOpen block) := fun s =>
  .of_graph s s.draft.graph s.draft.starts s.draft.current s.draft.usesMonitors block

/-- Asking for the open block keeps the draft. -/
theorem currentBlock : Keeps currentBlock := fun s => by
  rw [currentBlock_run]
  cases s.openBlock with
  | none => exact ⟨.refl s, .check _ rfl⟩
  | some block => exact .refl s

/-- A block for an instruction is found, or added to the graph. -/
theorem blockAt (index : Nat) : Keeps (blockAt index) := fun s => by
  rw [blockAt_run]
  have hlocated := s.draft.blockAt_located index
  revert hlocated
  generalize (s.draft.blockAt index).1 = block
  generalize (s.draft.blockAt index).2 = d
  intro hlocated
  cases hlocated with
  | old _ _ => exact .refl s
  | new label _ => exact .of_graph s _ _ _ _ _

/-- An edge keeps the variables. -/
theorem connect (source target : BlockId) (guard : Guard) : Keeps (connect source target guard) :=
  fun s => by
  cases h : Lower.connect source target guard s with
  | ok _ t =>
    obtain ⟨rfl, -⟩ := connect_ok h
    exact .of_graph s _ _ _ _ _
  | error e t =>
    obtain ⟨rfl, he⟩ := connect_error h
    exact ⟨.refl t, he⟩

/-- Checking the target of a jump keeps the draft. -/
theorem checkTarget (target : Nat) : Keeps (checkTarget target) := by
  refine draft.bind fun d => ?_
  split
  · exact fail _ rfl
  · exact pure _

/-- A jump keeps the draft in order. -/
theorem goto (target : Nat) : Keeps (goto target) :=
  (checkTarget target).bind fun _ => currentBlock.bind fun _ => (blockAt target).bind fun _ =>
    (connect _ _ _).bind fun _ => setOpen _

/-- The second edge of a conditional jump keeps the draft in order. -/
theorem fallThrough (source : BlockId) (condition : Expr) (next : Option Nat) :
    Keeps (fallThrough source condition next) := by
  cases next with
  | some next => exact (blockAt next).bind fun _ => (connect _ _ _).bind fun _ => setOpen _
  | none => exact (connect _ _ _).bind fun _ => setOpen _

/-- A conditional jump keeps the draft in order. -/
theorem branch (index : Nat) (condition : Value) (target : Nat) :
    Keeps (branch index condition target) := by
  rw [branch_eq]
  refine (checkTarget target).bind fun _ =>
    (of_traces (condition.events ·) fun _ => operand_traces condition).bind fun guard =>
      draft.bind fun d => ?_
  dsimp only
  split
  · exact pure _
  · exact currentBlock.bind fun block => (blockAt target).bind fun other =>
      (connect _ _ _).bind fun _ => fallThrough _ _ _

/-- Lowering an operation keeps what a lowering keeps. -/
theorem operation (index : Nat) (op : Op Nat) : Keeps (operation index op) := by
  cases op with
  | goto target => exact goto target
  | branch condition target => exact branch index condition target
  | tableSwitch | lookupSwitch => exact fail _ rfl
  | _ => exact of_traces (fun idioms => Op.events idioms _) fun _ => operation_traces index _ rfl

/-- Moving on to an instruction keeps the variables. -/
theorem moveTo (index : Nat) : Keeps (modify fun s => { s with draft := s.draft.moveTo index }) :=
  fun s => .of_graph s s.draft.graph s.draft.starts _ s.draft.usesMonitors s.openBlock

/-- Leading the open block to another one keeps the draft in order. -/
theorem leadTo (source other : BlockId) : Keeps (leadTo source other) :=
  (connect _ _ _).bind fun _ => setOpen _

/-- Going on from the open block keeps the draft in order. -/
theorem proceed (oracle : PredecessorOracle) (index : Nat) (source : BlockId) (starts : Option BlockId) :
    Keeps (proceed oracle index source starts) := by
  cases starts with
  | some other =>
    rw [Lower.proceed]
    split
    · exact leadTo source other
    · exact pure _
  | none =>
    rw [Lower.proceed]
    split
    · exact (blockAt index).bind fun _ => leadTo source _
    · exact pure _

/-- Entering an instruction keeps the draft in order. -/
theorem enter (oracle : PredecessorOracle) (index : Nat) : Keeps (enter oracle index) := by
  rw [enter_eq]
  refine (moveTo index).bind fun _ => get.bind fun s => ?_
  cases s.openBlock with
  | none => exact (blockAt index).bind fun _ => setOpen _
  | some source => exact proceed oracle index source _

/-- Closing the last block keeps the draft in order. -/
theorem close (body : Body) : Keeps (close body) := by
  unfold Lower.close
  split
  · exact connect _ _ _
  · refine get.bind fun s => ?_
    cases s.openBlock with
    | some block => exact (setOpen none).bind fun _ => connect _ _ _
    | none => exact pure _

/-- Lowering instructions one after another keeps the draft in order. -/
theorem instructions (oracle : PredecessorOracle) (instrs : List Instr) (index : Nat) :
    Keeps (instructions oracle instrs index) := by
  induction instrs generalizing index with
  | nil => exact pure _
  | cons instr rest ih =>
    exact ((enter oracle index).bind fun _ => operation index instr.op).bind fun _ => ih (index + 1)

/-- Every lowering of a body continues its start. -/
theorem stream (oracle : PredecessorOracle) (body : Body) : Keeps (stream oracle body) :=
  (instructions oracle _ 0).bind fun _ => close body

end Keeps

end Lower

namespace Session

/-- The numbers of all variables that a body declares together are an interval. -/
theorem map_id_startOf (body : Body) (p : Program) : ∃ count,
    (startOf body p).draft.variables.map Var.id = List.range' p.supply.next count := by
  let results := p.supply.mintAll body.resultRequests
  let receivers := results.2.mintAll body.receiverRequests
  let params := receivers.2.mintAll body.paramRequests
  let locals := params.2.mintAll body.localRequests
  have hresult : results.1.head?.toList = results.1 :=
    VarSupply.toList_head?_mintAll _ body.length_resultRequests
  have hreceiver : receivers.1.head?.toList = receivers.1 :=
    VarSupply.toList_head?_mintAll _ body.length_receiverRequests
  have hvariables : (startOf body p).draft.variables =
      results.1.head?.toList ++ receivers.1.head?.toList ++ params.1 ++ locals.1 := by
    change results.1.head?.toList ++ receivers.1.head?.toList ++ params.1.toArray.toList ++
      locals.1.toArray.toList ++ [] ++ [] = _
    simp
  rw [hvariables, hresult, hreceiver]
  simp only [List.map_append, results, receivers, params, locals, VarSupply.map_id_mintAll,
    VarSupply.next_mintAll, List.range'_append_1, Nat.add_assoc]
  exact ⟨_, rfl⟩

/-- The start of a lowering has proper variables. -/
theorem proper_startOf {p : Program} (hp : p.Named) (body : Body) : (startOf body p).Proper := by
  -- the supplies after the result, the receiver, the parameters and the locals were minted
  let results := p.supply.mintAll body.resultRequests
  let receivers := results.2.mintAll body.receiverRequests
  let params := receivers.2.mintAll body.paramRequests
  let locals := params.2.mintAll body.localRequests
  have hreceivers : results.2.next ≤ receivers.2.next := VarSupply.next_le_mintAll _ _
  have hparams : receivers.2.next ≤ params.2.next := VarSupply.next_le_mintAll _ _
  have hlocals : params.2.next ≤ locals.2.next := VarSupply.next_le_mintAll _ _
  refine ⟨hp, fun v hv => ?_, fun v hv => ?_, fun v hv => ?_, fun v hv => ?_, ?_, ?_, ?_⟩
  · obtain ⟨⟨request, hrequest, hrole⟩, -, hlt⟩ :=
      VarSupply.mem_mintAll (List.mem_of_mem_head? (show v ∈ results.1.head? from hv))
    have hlast : v.id < results.2.next := hlt
    exact ⟨hrole.trans (body.resultRequests_role hrequest), show v.id < locals.2.next by omega⟩
  · obtain ⟨⟨request, hrequest, hrole⟩, -, hlt⟩ :=
      VarSupply.mem_mintAll (List.mem_of_mem_head? (show v ∈ receivers.1.head? from hv))
    have hlast : v.id < receivers.2.next := hlt
    exact ⟨hrole.trans (body.receiverRequests_role hrequest), show v.id < locals.2.next by omega⟩
  · obtain ⟨⟨request, hrequest, hrole⟩, -, hlt⟩ :=
      VarSupply.mem_mintAll (Array.mem_toList_iff.mpr hv : v ∈ params.1)
    have hlast : v.id < params.2.next := hlt
    obtain ⟨⟨ty, index⟩, -, rfl⟩ := List.mem_map.mp hrequest
    exact ⟨⟨index, hrole⟩, show v.id < locals.2.next by omega⟩
  · obtain ⟨⟨request, hrequest, hrole⟩, -, hlt⟩ :=
      VarSupply.mem_mintAll (Array.mem_toList_iff.mpr hv : v ∈ locals.1)
    obtain ⟨decl, -, rfl⟩ := List.mem_map.mp hrequest
    exact ⟨hrole, hlt⟩
  · exact fun v hv => absurd hv (Array.not_mem_empty v)
  · exact fun v hv => by cases hv
  · obtain ⟨count, hids⟩ := map_id_startOf body p
    rw [hids]
    exact List.nodup_range' 1

/-- The variables that a body declares use up numbers. -/
theorem next_le_start (body : Body) (supply : VarSupply) :
    supply.next ≤ (Draft.start body supply).2.next :=
  calc
    supply.next ≤ _ := VarSupply.next_le_mintAll supply body.resultRequests
    _ ≤ _ := VarSupply.next_le_mintAll _ body.receiverRequests
    _ ≤ _ := VarSupply.next_le_mintAll _ body.paramRequests
    _ ≤ _ := VarSupply.next_le_mintAll _ body.localRequests

/-- Lowering a body only adds to the program, whether it succeeds or fails. -/
theorem growing_flowOf (body : Body) (oracle : PredecessorOracle) : Growing (flowOf body oracle) := by
  intro p
  have hstart : p.Grows (startOf body p).program :=
    .of_supply p _ _ (next_le_start body p.supply)
  rw [flowOf_run]
  cases hstream : Lower.stream oracle body (startOf body p) with
  | ok _ t => exact hstart.trans ((Lower.Keeps.stream oracle body).ok hstream).program
  | error e t => exact hstart.trans ((Lower.Keeps.stream oracle body).error hstream).1.program


/-- The run of the lowering of a body into its method. -/
theorem lower_run (body : Body) (oracle : PredecessorOracle) (p : Program) :
    lower body oracle p = match flowOf body oracle (p.resolve body.method).2 with
      | .ok flow q => match q.install (p.resolve body.method).1 flow with
        | .ok r => .ok (p.resolve body.method).1 r
        | .error e => .error e q
      | .error e q => .error e q := by
  unfold lower
  rw [bind_run]
  change (flowOf body oracle >>= _) (p.resolve body.method).2 = _
  rw [bind_run]
  cases flowOf body oracle (p.resolve body.method).2 with
  | error e q => rfl
  | ok flow q =>
    dsimp only
    change (match q.install (p.resolve body.method).1 flow with
      | .ok r => _
      | .error e => _ : Session Nat) q = _
    cases q.install (p.resolve body.method).1 flow <;> rfl

/-- Lowering a body into its method only adds to the program, whether it succeeds or fails. -/
theorem growing_lower (body : Body) (oracle : PredecessorOracle) : Growing (lower body oracle) := by
  intro p
  have hresolve := p.grows_resolve body.method
  have hflow := growing_flowOf body oracle (p.resolve body.method).2
  rw [lower_run]
  cases h : flowOf body oracle (p.resolve body.method).2 with
  | error e q =>
    rw [h] at hflow
    exact hresolve.trans hflow
  | ok flow q =>
    rw [h] at hflow
    dsimp only
    cases hinstall : q.install (p.resolve body.method).1 flow with
    | error e => exact hresolve.trans hflow
    | ok r => exact (hresolve.trans hflow).trans (Program.grows_install hinstall)

/-- Lowering a batch of bodies only adds to the program. -/
theorem grows_lowerAll (bodies : List Body) (p : Program) : p.Grows (lowerAll bodies p).2 := by
  induction bodies generalizing p with
  | nil => exact .refl p
  | cons body rest ih =>
    have hbody := growing_lower body body.predecessorOracle p
    rw [lowerAll]
    unfold lowerByTransfers
    cases h : lower body body.predecessorOracle p with
    | ok id q =>
      rw [h] at hbody
      exact hbody.trans (ih q)
    | error e q =>
      rw [h] at hbody
      exact (hbody.trans (q.grows_report _)).trans (ih _)

end Session

end GuardedFlow
