import GuardedFlow.Proofs.Lowering.InstructionTraces
import GuardedFlow.Proofs.Lowering.Variables

/-!
# What a lowering asks of the program

A lowering changes the program only by requests: it resolves methods, asks for array classes and globals,
takes numbers for variables and reports findings. Every step of a lowering makes some of these requests,
one after another, whether it succeeds or fails. So what every single request keeps is kept by the
lowering of any body, which `Session.flowOf_requests` states.
-/

namespace GuardedFlow

/-- Every run changes the program by requests only, one after another. -/
structure Requests {σ α : Type} (program : σ → Program) (m : EStateM Error σ α) : Prop where
  steps : ∀ s, (program s).Requested (program (stateAfter (m s)))

namespace Requests

variable {σ α β : Type} {program : σ → Program} {m : EStateM Error σ α} {f : α → EStateM Error σ β}

/-- A step that leaves the program alone. -/
theorem silent (h : ∀ s, program (stateAfter (m s)) = program s) : Requests program m :=
  ⟨fun s => by rw [h]⟩

/-- A step that makes one request. -/
theorem single (h : ∀ s, Program.Request (program s) (program (stateAfter (m s)))) : Requests program m :=
  ⟨fun s => .single (h s)⟩

/-- An answer makes no request. -/
theorem pure (a : α) : Requests program (pure a) := .silent fun _ => rfl

/-- The requests of one step come before those of the next one. -/
theorem bind (hm : Requests program m) (hf : ∀ a, Requests program (f a)) : Requests program (m >>= f) where
  steps s := by
    have hfirst := hm.steps s
    rw [bind_run]
    cases hs : m s with
    | error e t =>
      rw [hs] at hfirst
      exact hfirst
    | ok a t =>
      rw [hs] at hfirst
      exact hfirst.trans ((hf a).steps t)

end Requests

/-- Asking for a global is one request. -/
theorem Session.requests_global (name : String) (ty : Ty) : Requests id (global name ty) :=
  .single fun p => .global p name ty

namespace Lower

variable {α : Type}

/-- Every run of a step changes the program by requests only. -/
abbrev Requests (m : Lower α) : Prop := GuardedFlow.Requests LoweringState.program m

/-- A step that tells nothing makes requests only. -/
theorem Quiet.requests {m : Lower α} (h : Quiet m) : Requests m := ⟨fun s => (h s).requests⟩

/-- The condition of a jump makes requests only, and the jump does no more. -/
theorem requests_branch (index : Nat) (condition : Value) (target : Nat) :
    Requests (branch index condition target) := by
  rw [branch_eq]
  have hcondition : Requests (operand condition) :=
    ⟨fun s => (operand_traces condition).requests s (.refl s)⟩
  exact (Quiet.checkTarget target).requests.bind fun _ => hcondition.bind fun guard =>
    (Quiet.fork index target guard).requests

/-- Lowering an operation makes requests only. -/
theorem operation_requests (index : Nat) (op : Op Nat) : Requests (operation index op) := by
  have htraces (h : op.jumpTargets = []) : Requests (operation index op) :=
    ⟨fun s => (operation_traces index op h).requests s (.refl s)⟩
  cases op with
  | goto target => exact (Quiet.goto target).requests
  | branch condition target => exact requests_branch index condition target
  | tableSwitch | lookupSwitch => exact (Quiet.fail _).requests
  | _ => exact htraces rfl

/-- Lowering instructions one after another makes requests only. -/
theorem requests_instructions (oracle : PredecessorOracle) (instrs : List Instr) (index : Nat) :
    Requests (instructions oracle instrs index) := by
  induction instrs generalizing index with
  | nil => exact .pure ()
  | cons instr rest ih =>
    exact ((Quiet.enter oracle index).requests.bind fun _ => operation_requests index instr.op).bind
      fun _ => ih (index + 1)

/-- A pass over a body makes requests only. -/
theorem requests_stream (oracle : PredecessorOracle) (body : Body) : Requests (stream oracle body) :=
  (requests_instructions oracle _ 0).bind fun _ => (Quiet.close body).requests

end Lower

/-- The lowering of a body changes the program by requests only. -/
theorem Session.flowOf_requests (body : Body) (oracle : PredecessorOracle) :
    Requests id (flowOf body oracle) where
  steps p := by
    have hstart : Program.Request p (startOf body p).program := .mint p _ (next_le_start body p.supply)
    have hstream := (Lower.requests_stream oracle body).steps (startOf body p)
    rw [flowOf_run]
    cases hrun : Lower.stream oracle body (startOf body p) <;> rw [hrun] at hstream <;>
      exact hstream.head hstart

end GuardedFlow
