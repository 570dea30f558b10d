import Mathlib.Data.List.Nodup
import GuardedFlow.Lowering.Stream
import GuardedFlow.Proofs.Flow.Extension
import GuardedFlow.Proofs.Program.Growth

/-!
# What a lowering step appends

Between two jumps a lowering step can only append statements to the open block, until a call ends the
path. `Emits` relates the states before and after such a step by the appended statements and by the
end of the path, if it was reached. `Yields` is a calculus for these relations: its postconditions see
the appended statements, and sequencing concatenates them. A step that fails may leave statements
behind in its draft, but the program and the variables of the draft have only grown.
-/

namespace GuardedFlow

/-- How a matched call ends the path it stands on. -/
inductive PathEnd where
  /-- Control does not come back; the open block gets no edge. -/
  | halt
  /-- Control leaves the method; the open block leads to the sink. -/
  | leave
  deriving DecidableEq, Inhabited

namespace PathEnd

/-- The graph after the end of a path that stood in a block, or after a path that goes on. -/
def closes : Option PathEnd → BlockId → Graph Block Guard → Graph Block Guard
  | some leave, block, g => g.link block Flow.sink none
  | some halt, _, g | none, _, g => g

end PathEnd

/-- The end of a path adds no statements. -/
theorem PathEnd.stmtsAt_closes (fin : Option PathEnd) (block : BlockId) (g : Graph Block Guard)
    (other : BlockId) : (PathEnd.closes fin block g).stmtsAt other = g.stmtsAt other := by
  rcases fin with _ | _ | _ <;> rfl

/-- The variables of a draft. -/
def Draft.variables (d : Draft) : List Var :=
  d.result.toList ++ d.receiver.toList ++ d.params.toList ++ d.locals.toList ++ d.temps.toList ++
    d.exception.toList

namespace LoweringState

/-- The statements that were appended to the open block between two states. -/
def appended (s t : LoweringState) : List Stmt :=
  match s.openBlock with
  | some block => (t.draft.graph.stmtsAt block).drop (s.draft.graph.stmtsAt block).length
  | none => []

/-- The variables of a draft play the roles that the draft lists them under, their numbers are used up,
and no two of them have the same number. -/
structure Proper (s : LoweringState) : Prop where
  named : s.program.Named
  result : ∀ v ∈ s.draft.result, v.role = .result ∧ v.id < s.program.supply.next
  receiver : ∀ v ∈ s.draft.receiver, v.role = .receiver ∧ v.id < s.program.supply.next
  params : ∀ v ∈ s.draft.params, (∃ index, v.role = .parameter index) ∧ v.id < s.program.supply.next
  locals : ∀ v ∈ s.draft.locals, v.role = .declared ∧ v.id < s.program.supply.next
  temps : ∀ v ∈ s.draft.temps, v.role = .temporary ∧ v.id < s.program.supply.next
  exception : ∀ v ∈ s.draft.exception, v.role = .exception ∧ v.id < s.program.supply.next
  distinct : (s.draft.variables.map Var.id).Nodup

namespace Proper

variable {s : LoweringState}

/-- The numbers of the variables of a body are used up. -/
theorem id_lt (h : s.Proper) {v : Var} (hv : v ∈ s.draft.variables) :
    v.id < s.program.supply.next := by
  simp only [Draft.variables, List.mem_append, Option.mem_toList, Array.mem_toList_iff] at hv
  rcases hv with ((((hv | hv) | hv) | hv) | hv) | hv
  · exact (h.result v hv).2
  · exact (h.receiver v hv).2
  · exact (h.params v hv).2
  · exact (h.locals v hv).2
  · exact (h.temps v hv).2
  · exact (h.exception v hv).2

/-- The next number belongs to no variable yet. -/
theorem unused (h : s.Proper) : s.program.supply.next ∉ s.draft.variables.map Var.id := by
  intro hmem
  obtain ⟨v, hv, hid⟩ := List.mem_map.mp hmem
  exact Nat.ne_of_lt (h.id_lt hv) hid

/-- The variables of a body stay in order when the program grows. -/
theorem grow (h : s.Proper) {p : Program} (hp : s.program.Grows p) :
    Proper { s with program := p } where
  named := hp.named h.named
  result v hv := ⟨(h.result v hv).1, Nat.lt_of_lt_of_le (h.result v hv).2 hp.supply⟩
  receiver v hv := ⟨(h.receiver v hv).1, Nat.lt_of_lt_of_le (h.receiver v hv).2 hp.supply⟩
  params v hv := ⟨(h.params v hv).1, Nat.lt_of_lt_of_le (h.params v hv).2 hp.supply⟩
  locals v hv := ⟨(h.locals v hv).1, Nat.lt_of_lt_of_le (h.locals v hv).2 hp.supply⟩
  temps v hv := ⟨(h.temps v hv).1, Nat.lt_of_lt_of_le (h.temps v hv).2 hp.supply⟩
  exception v hv := ⟨(h.exception v hv).1, Nat.lt_of_lt_of_le (h.exception v hv).2 hp.supply⟩
  distinct := h.distinct

/-- A temporary with the next number keeps the variables in order. -/
theorem addTemp (h : s.Proper) (name : String) (ty : Ty) : Proper { s with
    program := { s.program with supply := ⟨s.program.supply.next + 1⟩ }
    draft := { s.draft with
      temps := s.draft.temps.push ⟨s.program.supply.next, name, ty, .temporary⟩ } } := by
  have hgrown := h.grow (.of_supply s.program s.program.log
    ⟨s.program.supply.next + 1⟩ (Nat.le_succ _))
  refine { hgrown with temps := fun v hv => ?_, distinct := ?_ }
  · rcases Array.mem_push.mp hv with hv | rfl
    · exact hgrown.temps v hv
    · exact ⟨rfl, Nat.lt_succ_self _⟩
  · have hunused := h.unused
    have hdistinct := h.distinct
    simp only [Draft.variables, List.map_append, Array.toList_push] at hunused hdistinct ⊢
    rw [← List.append_assoc, List.append_assoc _ (List.map Var.id [_])]
    exact List.nodup_middle.mpr (List.nodup_cons.mpr ⟨hunused, hdistinct⟩)

/-- A caught exception with the next number keeps the variables in order. -/
theorem addException (h : s.Proper) (hnone : s.draft.exception = none) (name : String) (ty : Ty) :
    Proper { s with
      program := { s.program with supply := ⟨s.program.supply.next + 1⟩ }
      draft := { s.draft with
        exception := some ⟨s.program.supply.next, name, ty, .exception⟩ } } := by
  have hgrown := h.grow (.of_supply s.program s.program.log
    ⟨s.program.supply.next + 1⟩ (Nat.le_succ _))
  refine { hgrown with exception := fun v hv => ?_, distinct := ?_ }
  · cases hv
    exact ⟨rfl, Nat.lt_succ_self _⟩
  · have hunused := h.unused
    have hdistinct := h.distinct
    simp only [Draft.variables, hnone, Option.toList_none, List.append_nil] at hunused hdistinct
    simp only [Draft.variables, Option.toList_some]
    rw [List.map_append]
    exact List.nodup_append_comm.mp (List.nodup_cons.mpr ⟨hunused, hdistinct⟩)

end Proper

end LoweringState

/-- Whether a fault is a request for a global under another type than it has. -/
def Fault.isConflict : Fault → Bool
  | .globalConflict .. => true
  | _ => false

/-- The failures that steps end with in a state: a check fails at the current instruction, a global was
requested under another type than it has, or a change of the graph is refused. -/
inductive LoweringState.Faults (t : LoweringState) : Error → Prop where
  | check (fault : Fault) (h : fault.isConflict = false) : t.Faults (.lowering fault t.draft.site)
  | conflict {name : String} {ty : Ty} {v : Var} (hv : t.program.globals.lookup name = some v)
      (hty : v.ty ≠ ty) : t.Faults (.lowering (.globalConflict name ty v.ty) .outside)
  | graph (fault : GraphFault) : t.Faults (.graph fault)

/-- What a lowering keeps of its state, and what it may add to it. -/
structure Continues (s t : LoweringState) : Prop where
  program : s.program.Grows t.program
  /-- Methods are only resolved; none gets a body. -/
  standing : t.program.standing = s.program.standing
  body : t.draft.body = s.draft.body
  result : t.draft.result = s.draft.result
  receiver : t.draft.receiver = s.draft.receiver
  params : t.draft.params = s.draft.params
  locals : t.draft.locals = s.draft.locals
  /-- New temporaries have numbers that were not used before. -/
  temps : ∃ new : List Var, t.draft.temps.toList = s.draft.temps.toList ++ new ∧
    ∀ v ∈ new, v.role = .temporary ∧ s.program.supply.next ≤ v.id ∧ v.id < t.program.supply.next
  /-- The caught exception stays once it was asked for. -/
  exception : ∀ v, s.draft.exception = some v → t.draft.exception = some v
  proper : s.Proper → t.Proper

namespace Continues

/-- A state in which nothing was done continues itself. -/
theorem refl (s : LoweringState) : Continues s s :=
  ⟨.refl _, rfl, rfl, rfl, rfl, rfl, rfl, ⟨[], by simp, by simp⟩, fun _ h => h, id⟩

/-- Continuations follow one another. -/
theorem trans {s t u : LoweringState} (hst : Continues s t) (htu : Continues t u) :
    Continues s u where
  program := hst.program.trans htu.program
  standing := htu.standing.trans hst.standing
  body := htu.body.trans hst.body
  result := htu.result.trans hst.result
  receiver := htu.receiver.trans hst.receiver
  params := htu.params.trans hst.params
  locals := htu.locals.trans hst.locals
  temps := by
    have hs := hst.program.supply
    have ht := htu.program.supply
    obtain ⟨first, hfirst, hfresh⟩ := hst.temps
    obtain ⟨second, hsecond, hfresh'⟩ := htu.temps
    refine ⟨first ++ second, by rw [hsecond, hfirst, List.append_assoc], fun v hv => ?_⟩
    rcases List.mem_append.mp hv with hv | hv
    · obtain ⟨hrole, hlow, hhigh⟩ := hfresh v hv
      exact ⟨hrole, hlow, by omega⟩
    · obtain ⟨hrole, hlow, hhigh⟩ := hfresh' v hv
      exact ⟨hrole, by omega, hhigh⟩
  exception v h := htu.exception v (hst.exception v h)
  proper h := htu.proper (hst.proper h)

/-- A program that grew under an unchanged draft. -/
theorem of_grows {s : LoweringState} {p : Program} (h : s.program.Grows p)
    (hstanding : p.standing = s.program.standing) : Continues s { s with program := p } :=
  ⟨h, hstanding, rfl, rfl, rfl, rfl, rfl, ⟨[], by simp, by simp⟩, fun _ h => h, fun hs => hs.grow h⟩

/-- A graph, a map of blocks and an open block that changed under unchanged variables. -/
theorem of_graph (s : LoweringState) (graph : Graph Block Guard) (starts : Array (Option BlockId))
    (current : Option Nat) (usesMonitors : Bool) (openBlock : Option BlockId) :
    Continues s { s with
      draft := { s.draft with graph, starts, current, usesMonitors }, openBlock } :=
  ⟨.refl _, rfl, rfl, rfl, rfl, rfl, rfl, ⟨[], by simp, by simp⟩, fun _ h => h, fun h =>
    ⟨h.named, h.result, h.receiver, h.params, h.locals, h.temps, h.exception, h.distinct⟩⟩

end Continues

/-- A step from `s` to `t` that appends `out` to the open block and then ends the path as `fin`
tells, or not at all. Nothing can be appended when no block is open. -/
structure Emits (s : LoweringState) (out : List Stmt) (fin : Option PathEnd) (t : LoweringState) :
    Prop extends Continues s t where
  starts : t.draft.starts = s.draft.starts
  current : t.draft.current = s.draft.current
  openBlock : t.openBlock = if fin.isSome then none else s.openBlock
  placed : out ≠ [] → ∃ block, s.openBlock = some block ∧ block < s.draft.graph.nodeCount
  graph : t.draft.graph = match s.openBlock with
    | some block => PathEnd.closes fin block (s.draft.graph.extend block out)
    | none => s.draft.graph

namespace Emits

/-- Doing nothing appends nothing. -/
theorem refl (s : LoweringState) : Emits s [] none s where
  toContinues := .refl s
  starts := rfl
  current := rfl
  openBlock := rfl
  placed h := absurd rfl h
  graph := by cases s.openBlock <;> simp [PathEnd.closes]

/-- A step that changes neither the graph nor the open block appends nothing. -/
theorem of_continues {s t : LoweringState} (h : Continues s t)
    (hstarts : t.draft.starts = s.draft.starts) (hcurrent : t.draft.current = s.draft.current)
    (hopen : t.openBlock = s.openBlock) (hgraph : t.draft.graph = s.draft.graph) :
    Emits s [] none t where
  toContinues := h
  starts := hstarts
  current := hcurrent
  openBlock := hopen
  placed h := absurd rfl h
  graph := by
    rw [hgraph]
    cases s.openBlock <;> simp [PathEnd.closes]

/-- Nothing is appended when no block is open. -/
theorem silent {s t : LoweringState} {out : List Stmt} {fin : Option PathEnd} (h : Emits s out fin t)
    (hclosed : s.openBlock = none) : out = [] := by
  cases out with
  | nil => rfl
  | cons stmt rest =>
    obtain ⟨block, hopen, -⟩ := h.placed (List.cons_ne_nil _ _)
    rw [hclosed] at hopen
    contradiction

/-- A step does not move to another instruction. -/
theorem location {s t : LoweringState} {out : List Stmt} {fin : Option PathEnd}
    (h : Emits s out fin t) : t.draft.location = s.draft.location := by
  simp only [Draft.location, h.current, h.body]

/-- A step stays at the site of its instruction. -/
theorem site {s t : LoweringState} {out : List Stmt} {fin : Option PathEnd} (h : Emits s out fin t) :
    t.draft.site = s.draft.site := by
  simp only [Draft.site, h.location, h.current, h.body]

/-- A block that is open after a step was open before it, and the path did not end. -/
theorem still_open {s t : LoweringState} {out : List Stmt} {fin : Option PathEnd} {block : BlockId}
    (h : Emits s out fin t) (hopen : t.openBlock = some block) :
    fin = none ∧ s.openBlock = some block := by
  have hopen' := h.openBlock
  rw [hopen] at hopen'
  cases fin with
  | none => exact ⟨rfl, hopen'.symm⟩
  | some fin => simp at hopen'

/-- Appending adds no blocks. -/
theorem nodeCount {s t : LoweringState} {out : List Stmt} {fin : Option PathEnd}
    (h : Emits s out fin t) : t.draft.graph.nodeCount = s.draft.graph.nodeCount := by
  rw [h.graph]
  cases s.openBlock with
  | none => rfl
  | some block =>
    have hextend : (s.draft.graph.extend block out).nodeCount = s.draft.graph.nodeCount :=
      Array.size_modify ..
    cases fin with
    | none => exact hextend
    | some fin => cases fin <;> exact hextend

/-- What a step appended can be read off the states around it. -/
theorem appended {s t : LoweringState} {out : List Stmt} {fin : Option PathEnd} (h : Emits s out fin t) :
    s.appended t = out := by
  unfold LoweringState.appended
  cases hopen : s.openBlock with
  | none => exact (h.silent hopen).symm
  | some block =>
    have hgraph := h.graph
    rw [hopen] at hgraph
    dsimp only at hgraph ⊢
    rw [hgraph, PathEnd.stmtsAt_closes]
    cases hout : out with
    | nil => rw [Graph.extend_nil, List.drop_length]
    | cons stmt rest =>
      obtain ⟨other, hother, hlt⟩ := h.placed (hout ▸ List.cons_ne_nil _ _)
      obtain rfl : block = other := by simpa [hopen] using hother
      rw [Graph.stmtsAt_extend hlt, if_pos rfl, List.drop_left]

/-- The statements of two steps follow one another, and the first end of the path counts. -/
theorem trans {s t u : LoweringState} {out out' : List Stmt} {fin fin' : Option PathEnd}
    (hst : Emits s out fin t) (htu : Emits t out' fin' u) :
    Emits s (out ++ out') (fin.or fin') u where
  toContinues := hst.toContinues.trans htu.toContinues
  starts := htu.starts.trans hst.starts
  current := htu.current.trans hst.current
  openBlock := by
    rw [htu.openBlock, hst.openBlock]
    cases fin <;> cases fin' <;> simp
  placed h := by
    by_cases hout : out = []
    · rw [hout, List.nil_append] at h
      obtain ⟨block, hopen, hlt⟩ := htu.placed h
      exact ⟨block, (hst.still_open hopen).2, hst.nodeCount ▸ hlt⟩
    · exact hst.placed hout
  graph := by
    cases hopen : s.openBlock with
    | none =>
      have hclosed : t.openBlock = none := by
        rw [hst.openBlock, hopen, ite_self]
      have hgraph := hst.graph
      have hgraph' := htu.graph
      rw [hopen] at hgraph
      rw [hclosed] at hgraph'
      exact hgraph'.trans hgraph
    | some block =>
      have hgraph := hst.graph
      rw [hopen] at hgraph
      cases fin with
      | some e =>
        have hclosed : t.openBlock = none := by simp [hst.openBlock]
        have hgraph' := htu.graph
        rw [hclosed] at hgraph'
        rw [htu.silent hclosed, List.append_nil, Option.some_or, hgraph']
        exact hgraph
      | none =>
        have hstill : t.openBlock = some block := by simp [hst.openBlock, hopen]
        have hgraph' := htu.graph
        rw [hstill] at hgraph'
        rw [hgraph', hgraph]
        simp only [PathEnd.closes, Option.none_or, Graph.extend_append]

end Emits

namespace Lower

variable {α β : Type}

/-- The open block, asked for. -/
theorem currentBlock_run (s : LoweringState) :
    currentBlock s = match s.openBlock with
      | some block => .ok block s
      | none => .error (.lowering .noOpenBlock s.draft.site) s := by
  change (match s.openBlock with
    | some block => pure block
    | none => fail .noOpenBlock : Lower BlockId) s = _
  cases s.openBlock <;> rfl

/-- A statement, appended to a block of the draft. -/
theorem append_run (stmt : Stmt) (block : BlockId) (s : LoweringState) :
    edit (·.append block stmt) s =
      if s.draft.graph.hasNode block then
        .ok () { s with draft := { s.draft with graph := s.draft.graph.extend block [stmt] } }
      else .error (.graph (.unknownBlock block s.draft.graph.nodeCount)) s := by
  have hpush : s.draft.graph.modifyNode block (·.push stmt) = s.draft.graph.extend block [stmt] := by
    simp only [Graph.extend, Block.push_eq_extend]
  rw [← hpush]
  unfold edit Draft.append
  by_cases hnode : s.draft.graph.hasNode block <;> simp only [hnode] <;> rfl

/-- Nothing comes after a step that fails. -/
theorem fail_bind (fault : Fault) (f : α → Lower β) : (fail fault >>= f) = fail fault :=
  funext fun s => bind_run (fail fault) f s

/-- Two steps that succeed one after another. -/
theorem bind_ok {m : Lower α} {f : α → Lower β} {s t : LoweringState} {b : β}
    (h : (m >>= f) s = .ok b t) : ∃ a u, m s = .ok a u ∧ f a u = .ok b t := by
  rw [bind_run] at h
  cases hm : m s with
  | error e u =>
    rw [hm] at h
    cases h
  | ok a u =>
    rw [hm] at h
    exact ⟨a, u, rfl, h⟩

/-- A sequence of two steps fails in the first or in the second. -/
theorem bind_error {m : Lower α} {f : α → Lower β} {s t : LoweringState} {e : Error}
    (h : (m >>= f) s = .error e t) :
    m s = .error e t ∨ ∃ a u, m s = .ok a u ∧ f a u = .error e t := by
  rw [bind_run] at h
  cases hm : m s with
  | error e' u =>
    rw [hm] at h
    cases h
    exact .inl rfl
  | ok a u =>
    rw [hm] at h
    exact .inr ⟨a, u, rfl, h⟩

/-- From `s`, every answer of `m` comes with appended statements and an end of the path for which the
postcondition holds, and every failure is one of those that steps end with and leaves a state that has
grown. -/
structure Yields (m : Lower α) (s : LoweringState)
    (Q : List Stmt → Option PathEnd → α → LoweringState → Prop) : Prop where
  ok : ∀ a t, m s = .ok a t → ∃ out fin, Emits s out fin t ∧ Q out fin a t
  error : ∀ e t, m s = .error e t → Continues s t ∧ t.Faults e

namespace Yields

variable {m : Lower α} {s t : LoweringState} {a : α}
  {Q R : List Stmt → Option PathEnd → α → LoweringState → Prop}

/-- A run that is known to answer. -/
theorem of_ok {out : List Stmt} {fin : Option PathEnd} (hrun : m s = .ok a t)
    (hemits : Emits s out fin t) (hQ : Q out fin a t) : Yields m s Q where
  ok b u h := by
    rw [hrun] at h
    cases h
    exact ⟨out, fin, hemits, hQ⟩
  error e u h := by
    rw [hrun] at h
    cases h

/-- A run that is known to fail. -/
theorem of_error {e : Error} (hrun : m s = .error e t) (hst : Continues s t) (he : t.Faults e) :
    Yields m s Q where
  ok b u h := by
    rw [hrun] at h
    cases h
  error e u h := by
    rw [hrun] at h
    cases h
    exact ⟨hst, he⟩

/-- Postconditions may be weakened. -/
theorem mono (h : Yields m s Q)
    (hQR : ∀ out fin a t, Emits s out fin t → Q out fin a t → R out fin a t) : Yields m s R where
  ok a t hm :=
    let ⟨out, fin, hemits, hQ⟩ := h.ok a t hm
    ⟨out, fin, hemits, hQR out fin a t hemits hQ⟩
  error := h.error

/-- An answer appends nothing. -/
theorem pure (h : Q [] none a s) : Yields (pure a) s Q := of_ok rfl (.refl s) h

/-- Steps one after another append their statements one after another. -/
theorem bind {f : α → Lower β} {R : List Stmt → Option PathEnd → β → LoweringState → Prop}
    (hm : Yields m s Q)
    (hf : ∀ out fin a t, Emits s out fin t → Q out fin a t →
      Yields (f a) t fun out' fin' b u => R (out ++ out') (fin.or fin') b u) :
    Yields (m >>= f) s R := by
  have hrun := bind_run m f s
  cases hs : m s with
  | error e t =>
    rw [hs] at hrun
    obtain ⟨hst, he⟩ := hm.error e t hs
    exact of_error hrun hst he
  | ok a t =>
    rw [hs] at hrun
    obtain ⟨out, fin, hemits, hQ⟩ := hm.ok a t hs
    have hrest := hf out fin a t hemits hQ
    refine ⟨fun b u h => ?_, fun e u h => ?_⟩
    · obtain ⟨out', fin', hemits', hR⟩ := hrest.ok b u (hrun.symm.trans h)
      exact ⟨out ++ out', fin.or fin', hemits.trans hemits', hR⟩
    · obtain ⟨htu, he⟩ := hrest.error e u (hrun.symm.trans h)
      exact ⟨hemits.toContinues.trans htu, he⟩

/-- A step that only reads the state hands what it has read to the next one. -/
theorem read_bind {f : α → Lower β} {R : List Stmt → Option PathEnd → β → LoweringState → Prop}
    (hread : m s = .ok a s) (hf : Yields (f a) s R) : Yields (m >>= f) s R := by
  have hrun : (m >>= f) s = f a s := by rw [bind_run, hread]
  exact ⟨fun b t h => hf.ok b t (hrun.symm.trans h), fun e t h => hf.error e t (hrun.symm.trans h)⟩

/-- A step that always fails yields nothing. -/
theorem fail {fault : Fault} (h : fault.isConflict = false) :
    Yields (fail fault : Lower α) s Q :=
  of_error rfl (.refl s) (.check fault h)

/-- Nothing is appended after a failure. -/
theorem fail_bind {fault : Fault} {f : β → Lower α} (h : fault.isConflict = false) :
    Yields (Lower.fail fault >>= f) s Q := by
  rw [Lower.fail_bind]
  exact .fail h

end Yields

section Primitives

variable {s : LoweringState}

/-- What the draft may lack is found in it, or the step fails. -/
theorem yields_found {α : Type} {Q : List Stmt → Option PathEnd → α → LoweringState → Prop}
    {step : Draft → Lower α} (find : Draft → Option α) (fault : Fault)
    (hfault : fault.isConflict = false) (hstep : ∀ d, step d = (find d).elim (fail fault) pure)
    (h : ∀ a, find s.draft = some a → Q [] none a s) :
    Yields (draft >>= step) s Q := by
  have hrun : (draft >>= step) s = (find s.draft).elim (fail fault) pure s :=
    congrFun (hstep s.draft) s
  cases ha : find s.draft with
  | none =>
    rw [ha] at hrun
    exact .of_error hrun (.refl s) (.check fault hfault)
  | some a =>
    rw [ha] at hrun
    exact .of_ok hrun (.refl s) (h a ha)

/-- Reading the program appends nothing. -/
theorem yields_program {Q : List Stmt → Option PathEnd → Program → LoweringState → Prop}
    (h : Q [] none s.program s) : Yields program s Q := .of_ok rfl (.refl s) h

/-- Reading the location appends nothing. -/
theorem yields_location {Q : List Stmt → Option PathEnd → Location → LoweringState → Prop}
    (h : Q [] none s.draft.location s) : Yields location s Q := .of_ok rfl (.refl s) h

/-- A statement goes to the end of the open block. -/
theorem yields_emit {stmt : Stmt} {Q : List Stmt → Option PathEnd → Unit → LoweringState → Prop}
    (h : ∀ block, s.openBlock = some block →
      Q [stmt] none () { s with draft := { s.draft with graph := s.draft.graph.extend block [stmt] } }) :
    Yields (emit stmt) s Q := by
  have hrun := bind_run currentBlock (fun block => edit (·.append block stmt)) s
  rw [currentBlock_run] at hrun
  cases hopen : s.openBlock with
  | none =>
    rw [hopen] at hrun
    exact .of_error hrun (.refl s) (.check _ rfl)
  | some block =>
    rw [hopen] at hrun
    dsimp only at hrun
    rw [append_run] at hrun
    by_cases hnode : s.draft.graph.hasNode block
    · rw [if_pos hnode] at hrun
      refine .of_ok hrun ⟨.of_graph s _ _ _ _ _, rfl, rfl, rfl, ?_, ?_⟩ (h block hopen)
      · exact fun _ => ⟨block, hopen, by simpa [Graph.hasNode] using hnode⟩
      · simp [hopen, PathEnd.closes]
    · rw [if_neg hnode] at hrun
      exact .of_error hrun (.refl s) (.graph _)

/-- A statement about the current instruction goes to the end of the open block. -/
theorem yields_emitHere {kind : StmtKind}
    {Q : List Stmt → Option PathEnd → Unit → LoweringState → Prop}
    (h : ∀ block, s.openBlock = some block →
      Q [⟨s.draft.location, kind⟩] none ()
        { s with draft := { s.draft with
          graph := s.draft.graph.extend block [⟨s.draft.location, kind⟩] } }) :
    Yields (emitHere kind) s Q :=
  .read_bind rfl (yields_emit h)

/-- The run of a request to the program. -/
theorem request_run (session : Session α) (s : LoweringState) :
    request session s = match session s.program with
      | .ok a p => .ok a { s with program := p }
      | .error e p => .error e { s with program := p } := rfl

/-- A request that comes down to one global answers with the variable of that name and type. -/
theorem yields_global {session : Session α} (name : String) (ty : Ty) (answer : Var → α)
    (hsession : session s.program = (do return answer (← Session.global name ty)) s.program)
    {Q : List Stmt → Option PathEnd → α → LoweringState → Prop}
    (h : ∀ v p, s.program.Grows p → p.globals.lookup name = some v → v.ty = ty →
      Q [] none (answer v) { s with program := p }) :
    Yields (request session) s Q := by
  have hrun := request_run session s
  rw [hsession, bind_run] at hrun
  have hgrows := Session.growing_global name ty s.program
  have hstanding := Session.global_standing name ty s.program
  cases hv : Session.global name ty s.program with
  | error e p =>
    obtain ⟨rfl, v, hlookup, hty, rfl⟩ := Session.global_error hv
    rw [hv] at hrun
    exact .of_error hrun (.refl s) (.conflict hlookup hty)
  | ok v p =>
    rw [hv] at hrun hgrows hstanding
    obtain ⟨hlookup, hty⟩ := Session.global_ok hv
    exact .of_ok hrun (.of_continues (.of_grows hgrows hstanding) rfl rfl rfl rfl)
      (h v p hgrows hlookup hty)

/-- A new temporary gets the next number. -/
theorem yields_freshTemp {stem : String} {ty : Ty}
    {Q : List Stmt → Option PathEnd → Var → LoweringState → Prop}
    (h : ∀ v p, v = ⟨s.program.supply.next, s!"{stem}{s.draft.temps.size}", ty, .temporary⟩ →
      p = { s.program with supply := ⟨s.program.supply.next + 1⟩ } →
      Q [] none v { s with
        program := p
        draft := { s.draft with temps := s.draft.temps.push v } }) :
    Yields (freshTemp stem ty) s Q := by
  refine .of_ok rfl (.of_continues ⟨?_, rfl, rfl, rfl, rfl, rfl, rfl, ?_, fun _ h => h, ?_⟩
    rfl rfl rfl rfl)
    (h _ _ rfl rfl)
  · exact .of_supply s.program _ _ (Nat.le_succ _)
  · exact ⟨[⟨s.program.supply.next, s!"{stem}{s.draft.temps.size}", ty, .temporary⟩],
      by simp, by simp⟩
  · exact fun hs => hs.addTemp _ ty

/-- The variable of the caught exception is made by the first request for it. -/
theorem yields_caughtException {ty : Ty}
    {Q : List Stmt → Option PathEnd → Var → LoweringState → Prop}
    (hold : ∀ v, s.draft.exception = some v → Q [] none v s)
    (hnew : ∀ v p, s.draft.exception = none →
      v = ⟨s.program.supply.next, "$exception", ty, .exception⟩ →
      p = { s.program with supply := ⟨s.program.supply.next + 1⟩ } →
      Q [] none v { s with program := p, draft := { s.draft with exception := some v } }) :
    Yields (caughtException ty) s Q := by
  have hrun : caughtException ty s =
      .ok (s.draft.caughtException ty s.program.supply).1 { s with
        draft := (s.draft.caughtException ty s.program.supply).2.1
        program := { s.program with
          supply := (s.draft.caughtException ty s.program.supply).2.2 } } := rfl
  unfold Draft.caughtException at hrun
  cases hv : s.draft.exception with
  | some v =>
    rw [hv] at hrun
    exact .of_ok hrun (.refl s) (hold v hv)
  | none =>
    rw [hv] at hrun
    refine .of_ok hrun (.of_continues ⟨?_, rfl, rfl, rfl, rfl, rfl, rfl, ⟨[], by simp, by simp⟩, ?_,
      ?_⟩ rfl rfl rfl rfl) (hnew _ _ hv rfl rfl)
    · exact .of_supply s.program _ _ (Nat.le_succ _)
    · exact fun v h => by cases hv.symm.trans h
    · exact fun hs => hs.addException hv _ ty

/-- Asking for a method appends nothing. -/
theorem yields_resolve {sig : MethodSig} {Q : List Stmt → Option PathEnd → Nat → LoweringState → Prop}
    (h : Q [] none (s.program.resolve sig).1 { s with program := (s.program.resolve sig).2 }) :
    Yields (resolve sig) s Q :=
  .of_ok rfl (.of_continues (.of_grows (s.program.grows_resolve sig)
    (s.program.standing_resolve sig)) rfl rfl rfl rfl) h

/-- Asking for an array class appends nothing. -/
theorem yields_arrayClass {element : Ty}
    {Q : List Stmt → Option PathEnd → ArrayClass → LoweringState → Prop}
    (h : Q [] none (s.program.arrayClass element).1
      { s with program := (s.program.arrayClass element).2 }) :
    Yields (arrayClass element) s Q :=
  .of_ok rfl (.of_continues (.of_grows (s.program.grows_arrayClass element) rfl) rfl rfl rfl rfl) h

/-- A report appends nothing. -/
theorem yields_report {severity : Severity} {category : Category} {message : String}
    {Q : List Stmt → Option PathEnd → Unit → LoweringState → Prop}
    (h : ∀ d, Q [] none () { s with program := s.program.report d }) :
    Yields (report severity category message) s Q :=
  .of_ok rfl (.of_continues (.of_grows (s.program.grows_report _) rfl) rfl rfl rfl rfl) (h _)

/-- Recording the use of a monitor changes a mark of the draft only. -/
theorem yields_usesMonitors {Q : List Stmt → Option PathEnd → Unit → LoweringState → Prop}
    (h : Q [] none () { s with draft := { s.draft with usesMonitors := true } }) :
    Yields (modify fun s => { s with draft := { s.draft with usesMonitors := true } }) s Q :=
  .of_ok rfl (.of_continues (.of_graph s _ _ _ _ _) rfl rfl rfl rfl) h

/-- A path that ends without an edge leaves no block open. -/
theorem yields_halt {Q : List Stmt → Option PathEnd → Unit → LoweringState → Prop}
    (h : Q [] (some .halt) () { s with openBlock := none }) : Yields (setOpen none) s Q := by
  refine .of_ok rfl ⟨.of_graph s s.draft.graph s.draft.starts s.draft.current _ none, rfl, rfl, rfl,
    fun h => absurd rfl h, ?_⟩ h
  cases s.openBlock <;> simp [PathEnd.closes]

end Primitives

section Returns

variable {s : LoweringState}

/-- An edge, if the two blocks are not joined yet. -/
theorem connect_run (source target : BlockId) (guard : Guard) (s : LoweringState) :
    connect source target guard s =
      if (s.draft.graph.findEdge source target).isSome then
        .error (.lowering (.duplicateEdge (s.draft.labelOf source) (s.draft.labelOf target))
          s.draft.site) s
      else match s.draft.graph.addEdge source target guard with
        | .ok (_, graph) => .ok () { s with draft := { s.draft with graph } }
        | .error fault => .error (.graph fault) s := by
  unfold connect edit Draft.connect
  by_cases h : (s.draft.graph.findEdge source target).isSome
  · simp only [h, if_true]
  · simp only [h]
    cases s.draft.graph.addEdge source target guard <;> rfl

/-- A successful connection adds one edge, between blocks of the graph that were not joined. -/
theorem connect_ok {source target : BlockId} {guard : Guard} {t : LoweringState}
    (h : connect source target guard s = .ok () t) :
    t = { s with draft := { s.draft with graph := s.draft.graph.link source target guard } } ∧
      s.draft.graph.hasNode source ∧ s.draft.graph.hasNode target ∧
      s.draft.graph.findEdge source target = none := by
  rw [connect_run] at h
  split at h
  · cases h
  · rename_i hfree
    unfold Graph.addEdge at h
    by_cases hsource : s.draft.graph.hasNode source
    · by_cases htarget : s.draft.graph.hasNode target
      · simp only [hsource, htarget, Bool.not_true, Bool.false_eq_true, if_false] at h
        cases h
        exact ⟨rfl, hsource, htarget, by simpa using hfree⟩
      · simp [hsource, htarget] at h
    · simp [hsource] at h

/-- A connection that fails changes nothing. -/
theorem connect_error {source target : BlockId} {guard : Guard} {e : Error} {t : LoweringState}
    (h : connect source target guard s = .error e t) : t = s ∧ s.Faults e := by
  rw [connect_run] at h
  split at h
  · cases h
    exact ⟨rfl, .check _ rfl⟩
  · split at h <;> cases h
    exact ⟨rfl, .graph _⟩

/-- The run of a return. -/
theorem returnVoid_run (s : LoweringState) :
    returnVoid s = match s.openBlock with
      | some block => match connect block Flow.sink none s with
        | .ok _ t => .ok () { t with openBlock := none }
        | .error e t => .error e t
      | none => .error (.lowering .noOpenBlock s.draft.site) s := by
  unfold returnVoid
  rw [bind_run, currentBlock_run]
  cases s.openBlock with
  | none => rfl
  | some block =>
    dsimp only
    rw [bind_run]
    cases connect block Flow.sink none s <;> rfl

/-- A return leads the open block to the sink. -/
theorem yields_returnVoid {Q : List Stmt → Option PathEnd → Unit → LoweringState → Prop}
    (h : ∀ t, t.program = s.program → Q [] (some .leave) () t) : Yields returnVoid s Q := by
  have hrun := returnVoid_run s
  cases hopen : s.openBlock with
  | none =>
    rw [hopen] at hrun
    exact .of_error hrun (.refl s) (.check _ rfl)
  | some block =>
    rw [hopen] at hrun
    dsimp only at hrun
    cases hconnect : connect block Flow.sink none s with
    | error e t =>
      rw [hconnect] at hrun
      obtain ⟨rfl, he⟩ := connect_error hconnect
      exact .of_error hrun (.refl t) he
    | ok _ t =>
      rw [hconnect] at hrun
      obtain ⟨rfl, -⟩ := connect_ok hconnect
      refine .of_ok hrun ⟨.of_graph s _ _ _ _ _, rfl, rfl, rfl, fun h => absurd rfl h, ?_⟩ (h _ rfl)
      simp [hopen, PathEnd.closes]

end Returns

end Lower

end GuardedFlow
