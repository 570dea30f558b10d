import GuardedFlow.Proofs.Lowering.Jumps

/-!
# The visits of a pass

A pass enters every instruction of a body once, in order, and lowers it in the block that is open then.
`Session.visits` records the states around each operation, and `Passes` unfolds a successful pass into
these visits: an operation, and then the entry of the next instruction or the end of the stream.
-/

namespace GuardedFlow

/-- What happened to one instruction of a stream. -/
structure Visit where
  instr : Instr
  /-- The state after the instruction was entered. -/
  entered : LoweringState
  /-- The state after the instruction was lowered. -/
  left : LoweringState

namespace Visit

/-- The block that the instruction belongs to. -/
def home (v : Visit) : Option BlockId := v.entered.openBlock

/-- The statements that were appended to the block of the instruction while it was lowered. -/
def segment (v : Visit) : List Stmt := v.entered.appended v.left

end Visit

/-- A pass enters an instruction, lowers its operation and goes on with the other instructions. -/
theorem Lower.instructions_cons (oracle : PredecessorOracle) (instr : Instr) (rest : List Instr)
    (index : Nat) : instructions oracle (instr :: rest) index =
      enter oracle index >>= fun _ => operation index instr.op >>= fun _ =>
        instructions oracle rest (index + 1) := by
  rw [instructions, instruction, bind_assoc]

/-- The visits of a pass over the instructions from `index` on, as far as it succeeds. -/
def Lower.visits (oracle : PredecessorOracle) : List Instr → Nat → LoweringState → List Visit
  | [], _, _ => []
  | instr :: rest, index, s =>
    match enter oracle index s with
    | .ok _ entered =>
      match operation index instr.op entered with
      | .ok _ left => ⟨instr, entered, left⟩ :: visits oracle rest (index + 1) left
      | .error .. => []
    | .error .. => []

namespace Session

/-- The state in which the lowering of a body starts. -/
def startOf (body : Body) (p : Program) : LoweringState :=
  ⟨{ p with supply := (Draft.start body p.supply).2 }, (Draft.start body p.supply).1, none⟩

/-- The visits of the lowering of a body. -/
def visits (body : Body) (oracle : PredecessorOracle) (p : Program) : List Visit :=
  Lower.visits oracle body.code.toList 0 (startOf body p)

/-- The run of the lowering of a body. -/
theorem flowOf_run (body : Body) (oracle : PredecessorOracle) (p : Program) :
    flowOf body oracle p = match Lower.stream oracle body (startOf body p) with
      | .ok _ t => .ok t.draft.finish t.program
      | .error e t => .error e t.program := rfl

/-- A control-flow graph is the finished draft of a pass over the stream. -/
theorem flowOf_ok {body : Body} {oracle : PredecessorOracle} {p q : Program} {flow : Flow}
    (h : flowOf body oracle p = .ok flow q) : ∃ t, Lower.stream oracle body (startOf body p) = .ok () t ∧
      flow = t.draft.finish ∧ q = t.program := by
  rw [flowOf_run] at h
  cases hstream : Lower.stream oracle body (startOf body p) with
  | error e t =>
    rw [hstream] at h
    cases h
  | ok _ t =>
    rw [hstream] at h
    cases h
    exact ⟨t, rfl, rfl, rfl⟩

end Session

/-- A successful pass over the instructions from `index` on, which starts when that instruction was
entered and includes the end of the stream. -/
inductive Passes (body : Body) (oracle : PredecessorOracle) :
    Nat → LoweringState → List Visit → LoweringState → Prop where
  | last {index : Nat} {instr : Instr} {entered left closed : LoweringState}
      (hinstr : body.code[index]? = some instr)
      (hlast : body.code.size = index + 1)
      (hrun : Lower.operation index instr.op entered = .ok () left)
      (hclose : Lower.close body left = .ok () closed) :
      Passes body oracle index entered [⟨instr, entered, left⟩] closed
  | step {index : Nat} {instr : Instr} {entered left next closed : LoweringState}
      {visits : List Visit}
      (hinstr : body.code[index]? = some instr)
      (hnext : index + 1 < body.code.size)
      (hrun : Lower.operation index instr.op entered = .ok () left)
      (henter : Lower.enter oracle (index + 1) left = .ok () next)
      (hrest : Passes body oracle (index + 1) next visits closed) :
      Passes body oracle index entered (⟨instr, entered, left⟩ :: visits) closed

/-- The instruction at which a stream goes on, and what comes after it. -/
theorem Body.code_of_drop {body : Body} {instr : Instr} {rest : List Instr} {index : Nat}
    (h : body.code.toList.drop index = instr :: rest) : body.code[index]? = some instr ∧
      body.code.toList.drop (index + 1) = rest ∧ body.code.size = index + 1 + rest.length := by
  have hget := congrArg (·[0]?) h
  have htail := congrArg List.tail h
  have hlength := congrArg List.length h
  refine ⟨by simpa using hget, by simpa [List.tail_drop] using htail, ?_⟩
  simp only [List.length_drop, Array.length_toList, List.length_cons] at hlength
  omega

namespace Passes

variable {body : Body} {oracle : PredecessorOracle} {s t u : LoweringState}

/-- Every successful run over a stream enters its first instruction and passes over its visits. -/
theorem of_instructions {instr : Instr} {rest : List Instr} {index : Nat}
    (hcode : body.code.toList.drop index = instr :: rest)
    (hrun : Lower.instructions oracle (instr :: rest) index s = .ok () t)
    (hclose : Lower.close body t = .ok () u) : ∃ entered, Lower.enter oracle index s = .ok () entered ∧
      Passes body oracle index entered (Lower.visits oracle (instr :: rest) index s) u := by
  induction rest generalizing instr index s with
  | nil =>
    obtain ⟨_, left, hinstr, hdone⟩ := Lower.bind_ok hrun
    cases hdone
    obtain ⟨_, entered, henter, hop⟩ := Lower.bind_ok hinstr
    obtain ⟨hget, -, hsize⟩ := body.code_of_drop hcode
    refine ⟨entered, henter, ?_⟩
    simp only [Lower.visits, henter, hop]
    exact .last hget hsize hop hclose
  | cons following rest ih =>
    obtain ⟨_, left, hinstr, hrest⟩ := Lower.bind_ok hrun
    obtain ⟨_, entered, henter, hop⟩ := Lower.bind_ok hinstr
    obtain ⟨hget, hdrop, hsize⟩ := body.code_of_drop hcode
    obtain ⟨next, henter', hpasses⟩ := ih hdrop hrest
    refine ⟨entered, henter, ?_⟩
    rw [Lower.visits]
    simp only [henter, hop]
    refine .step hget ?_ hop henter' hpasses
    rw [hsize, List.length_cons]
    omega

/-- The visits of a pass are those of the instructions of the body, from its start on. -/
theorem instrs {index : Nat} {vs : List Visit} (h : Passes body oracle index s vs t) :
    vs.map Visit.instr = body.code.toList.drop index := by
  have hcons {index : Nat} {instr : Instr} (hinstr : body.code[index]? = some instr) :
      body.code.toList.drop index = instr :: body.code.toList.drop (index + 1) := by
    obtain ⟨hlt, rfl⟩ := Array.getElem?_eq_some_iff.mp hinstr
    exact List.drop_eq_getElem_cons (by simpa using hlt)
  induction h with
  | last hinstr hlast _ _ =>
    have hend : body.code.toList.length = _ := hlast
    rw [hcons hinstr, ← hend, List.drop_length]
    rfl
  | step hinstr _ _ _ _ ih =>
    rw [hcons hinstr, ← ih]
    rfl

end Passes

end GuardedFlow
