import GuardedFlow.Proofs.Lowering.Failures
import GuardedFlow.Proofs.Lowering.Variables

/-!
# Where errors are found

A lowering stops at the first instruction that fails. Checks are made where the instruction is known and
name it, at any depth of its operands. The globals are asked for without it: a request for another type
than that of the first request fails outside of any instruction. `Session.flowOf_site` states that this is
the only exception.
-/

namespace GuardedFlow

/-- The site of an instruction: its position with its text, and its location. -/
def Instr.siteAt (instr : Instr) (index : Nat) : Site := ⟨s!"#{index}: {instr.text}", instr.location⟩

/-- An instruction is never taken for the lack of one. -/
theorem Instr.siteAt_ne_outside (instr : Instr) (index : Nat) : instr.siteAt index ≠ .outside := by
  intro h
  have hfirst := congrArg (fun site => site.instruction.toList.head?) h
  simp [siteAt, Site.outside, toString] at hfirst

/-- A body describes an instruction as its site does. -/
theorem Body.describe_eq {body : Body} {index : Nat} {instr : Instr}
    (h : body.code[index]? = some instr) : body.describe index = (instr.siteAt index).instruction := by
  simp only [Body.describe, h]
  rfl

/-- The draft names the instruction that is being lowered. -/
theorem Draft.site_eq {d : Draft} {index : Nat} {instr : Instr} (hcurrent : d.current = some index)
    (hinstr : d.body.code[index]? = some instr) : d.site = instr.siteAt index := by
  simp only [Draft.site, Draft.location, hcurrent, hinstr, Body.describe_eq hinstr, Option.map_some,
    Option.getD_some]
  rfl

namespace LoweringState

variable {body : Body} {index : Nat} {instr : Instr} {oracle : PredecessorOracle} {s t : LoweringState}
  {fault : Fault} {site : Site}

/-- What an error of an instruction tells about its place: an instruction that fails a check is named; a
request for a global under another type than it has is not. -/
inductive Sited (t : LoweringState) (index : Nat) (instr : Instr) : Fault → Site → Prop where
  | check {fault : Fault} (h : fault.isConflict = false) : t.Sited index instr fault (instr.siteAt index)
  | conflict {name : String} {ty : Ty} {v : Var} (hv : t.program.globals.lookup name = some v)
      (hty : v.ty ≠ ty) : t.Sited index instr (.globalConflict name ty v.ty) .outside

/-- A pass that fails comes to an instruction that does: those before it are lowered. -/
theorem Pending.instructions_error {instrs : List Instr} {e : Error} (h : s.Pending body index)
    (hcode : body.code.toList.drop index = instrs)
    (hrun : Lower.instructions oracle instrs index s = .error e t) :
    ∃ n instr u, u.Pending body (index + n) ∧ body.code[index + n]? = some instr ∧
      Lower.instructions oracle (instrs.take n) index s = .ok () u ∧
      Lower.instruction oracle instr (index + n) u = .error e t := by
  induction instrs generalizing index s with
  | nil => cases hrun
  | cons instr rest ih =>
    obtain ⟨hget, hdrop, -⟩ := body.code_of_drop hcode
    obtain ⟨hlt, -⟩ := Array.getElem?_eq_some_iff.mp hget
    rcases Lower.bind_error hrun with hfails | ⟨_, left, hinstr, hrest⟩
    · exact ⟨0, instr, s, h, hget, rfl, hfails⟩
    · obtain ⟨_, entered, henter, hop⟩ := Lower.bind_ok hinstr
      obtain ⟨hentered, block, hopen⟩ := h.enter hlt henter
      obtain ⟨n, next, u, hu, hnext, hbefore, hfails⟩ :=
        ih (hentered.operation hopen hop) hdrop hrest
      rw [Nat.add_assoc, Nat.add_comm 1] at hu hnext hfails
      refine ⟨n + 1, next, u, hu, hnext, ?_, hfails⟩
      rw [List.take_succ_cons, Lower.instructions, bind_run, hinstr]
      exact hbefore

/-- A pass that comes to an instruction which fails says where. -/
theorem Pending.sited (h : s.Pending body index) (hinstr : body.code[index]? = some instr)
    (hrun : Lower.instruction oracle instr index s = .error (.lowering fault site) t) :
    t.Sited index instr fault site := by
  obtain ⟨hlt, -⟩ := Array.getElem?_eq_some_iff.mp hinstr
  obtain ⟨entered, henter⟩ := Lower.enter_answers oracle h
  obtain ⟨hentered, block, hopen⟩ := h.enter hlt henter
  rcases Lower.bind_error hrun with hfails | ⟨_, u, henter', hop⟩
  · exact absurd hfails fun hfails => Lower.not_error henter hfails
  rw [henter] at henter'
  cases henter'
  obtain ⟨ended, hrefuses, -⟩ := Lower.operation_refuses hentered hopen hop
  obtain ⟨-, hfaults⟩ := (Lower.Keeps.operation index instr.op).error hop
  have hsite : entered.draft.site = instr.siteAt index :=
    Draft.site_eq (Lower.enter_current henter) (hentered.awaits.mapped.lowers ▸ hinstr)
  -- the kind of the refusal tells the site, and the kind of the fault its cause
  cases hrefuses with
  | refusal fault hrefusal => exact hsite ▸ .check (Fault.isConflict_of_isRefusal hrefusal)
  | closed _ => exact hsite ▸ .check rfl
  | conflict name requested declared =>
    generalize Site.outside = place at hfaults
    cases hfaults with
    | check _ h => cases h
    | conflict hv hty => exact .conflict hv hty

end LoweringState

namespace Session

/-- The lowering of a body ends with an error at an instruction: the ones before it are lowered, and this
one fails. -/
inductive FailsAt (body : Body) (oracle : PredecessorOracle) (p : Program) (index : Nat) (instr : Instr)
    (e : Error) (q : Program) : Prop where
  | intro {s t : LoweringState} (hinstr : body.code[index]? = some instr)
      (hbefore : Lower.instructions oracle (body.code.toList.take index) 0 (startOf body p) = .ok () s)
      (hfails : Lower.instruction oracle instr index s = .error e t) (hprogram : t.program = q)

/-- A fault names the first instruction that fails, by its position with its text and by its location,
if and only if it is not a request for a global under another type than it has. Such a request names no
instruction. -/
theorem flowOf_site (body : Body) (oracle : PredecessorOracle) (p : Program) {fault : Fault} {site : Site}
    {q : Program} (h : flowOf body oracle p = .error (.lowering fault site) q) :
    ∃ index instr, FailsAt body oracle p index instr (.lowering fault site) q ∧
      (site = instr.siteAt index ↔
        ¬∃ name requested v, fault = .globalConflict name requested v.ty ∧
          q.globals.lookup name = some v ∧ v.ty ≠ requested) ∧
      (site ≠ instr.siteAt index → site = .outside) := by
  obtain ⟨t, hfails, rfl⟩ := flowOf_error h
  obtain ⟨index, instr, s, hs, hinstr, hbefore, hfails⟩ :=
    (pending_startOf body p).instructions_error rfl hfails
  rw [Nat.zero_add] at hs hinstr hfails
  refine ⟨index, instr, ⟨hinstr, hbefore, hfails, rfl⟩, ?_⟩
  cases hs.sited hinstr hfails with
  | check hcheck =>
    refine ⟨⟨fun _ => ?_, fun _ => rfl⟩, fun hne => absurd rfl hne⟩
    rintro ⟨name, requested, v, rfl, -⟩
    cases hcheck
  | conflict hv hty =>
    exact ⟨⟨fun heq => absurd heq.symm (instr.siteAt_ne_outside index),
      fun hnone => absurd ⟨_, _, _, rfl, hv, hty⟩ hnone⟩, fun _ => rfl⟩

/-- A static field is read as an `int` and then as a `long`. -/
def retypedExample : Body where
  method := ⟨"Fields", "read", [], .prim .void⟩
  isStatic := true
  isSynchronized := false
  locals := #[⟨"x", .int⟩, ⟨"y", .prim .long⟩]
  code := #[⟨.assign (.slot 0) (.staticField ⟨"S", "f", .int⟩), .unknown⟩,
    ⟨.assign (.slot 1) (.staticField ⟨"S", "f", .prim .long⟩), .unknown⟩, ⟨.retVoid, .unknown⟩]

/-- The second read fails, but the error does not name it. -/
theorem flowOf_site_retyped : ∃ fault q,
    flowOf retypedExample retypedExample.predecessorOracle (.new .standard) =
      .error (.lowering fault .outside) q ∧
    ∃ index instr, FailsAt retypedExample retypedExample.predecessorOracle (.new .standard) index instr
      (.lowering fault .outside) q ∧ Site.outside ≠ instr.siteAt index := by
  have houtside : (match flowOf retypedExample retypedExample.predecessorOracle (.new .standard) with
      | .error (.lowering _ site) _ => decide (site = .outside)
      | _ => false) = true := by decide +kernel
  split at houtside
  · rename_i fault site q h
    obtain rfl := of_decide_eq_true houtside
    obtain ⟨index, instr, hfails, -⟩ := flowOf_site _ _ _ h
    exact ⟨fault, q, h, index, instr, hfails, (instr.siteAt_ne_outside index).symm⟩
  · contradiction

end Session

end GuardedFlow
