import GuardedFlow.Code.Value
import GuardedFlow.Location

/-!
# Instructions

An instruction is an operation with a source position. The type of jump targets is a parameter of
operations: in a finished body a target is the position of an instruction, while in a body under
construction it may be a label. Switches, subroutine returns and throws belong to the instruction
format, although lowering refuses them.
-/

namespace GuardedFlow

/-- What an instruction does; jumps lead to targets of type `τ`. -/
inductive Op (τ : Type) where
  | assign (target value : Value)
  /-- Bind a local to a parameter, the receiver or the caught exception. -/
  | identity (slot : Nat) (value : Value)
  | goto (target : τ)
  /-- Jump if the condition holds, go on with the next instruction otherwise. -/
  | branch (condition : Value) (target : τ)
  /-- A call whose result is discarded. -/
  | invoke (call : Call Value)
  | ret (value : Value)
  | retVoid
  | monitorEnter (lock : Value)
  | monitorExit (lock : Value)
  | nop
  | breakpoint
  /-- A multi-way jump on consecutive keys from `low` on. -/
  | tableSwitch (key : Value) (low : Int32) (targets : List τ) (otherwise : τ)
  /-- A multi-way jump on listed keys. -/
  | lookupSwitch (key : Value) (cases : List (Int32 × τ)) (otherwise : τ)
  /-- Return from a subroutine to the address in a local. -/
  | subroutineReturn (slot : Nat)
  | throw (exception : Value)
  deriving Inhabited

namespace Op

variable {τ σ : Type}

/-- Whether control can go on with the next instruction. -/
def fallsThrough : Op τ → Bool
  | goto _ | ret _ | retVoid | tableSwitch .. | lookupSwitch .. | subroutineReturn _ | throw _ =>
    false
  | _ => true

/-- The jump targets in the order in which they are written. -/
def jumpTargets : Op τ → List τ
  | goto target | branch _ target => [target]
  | tableSwitch _ _ targets otherwise => targets ++ [otherwise]
  | lookupSwitch _ cases otherwise => cases.map (·.2) ++ [otherwise]
  | _ => []

/-- The printed form of an operation with printed targets. -/
def render : Op String → String
  | assign target value => s!"{target} = {value}"
  | identity slot value => s!"{slotText slot} := {value}"
  | goto target => s!"goto {target}"
  | branch condition target => s!"if {condition} goto {target}"
  | invoke call => (call.map Value.text).text
  | ret value => s!"return {value}"
  | retVoid => "return"
  | monitorEnter lock => s!"entermonitor {lock}"
  | monitorExit lock => s!"exitmonitor {lock}"
  | nop => "nop"
  | breakpoint => "breakpoint"
  | tableSwitch key low targets otherwise =>
    switch "tableswitch" key
      (targets.zipIdx.map fun (target, offset) => (low.toInt + offset, target)) otherwise
  | lookupSwitch key cases otherwise =>
    switch "lookupswitch" key (cases.map fun (k, target) => (k.toInt, target)) otherwise
  | subroutineReturn slot => s!"ret {slotText slot}"
  | throw exception => s!"throw {exception}"
where
  /-- The printed form of a multi-way jump. -/
  switch (name : String) (key : Value) (cases : List (Int × String)) (otherwise : String) :
      String :=
    s!"{name}({key}) \x7b" ++
      String.join (cases.map fun (k, target) => s!" case {k}: goto {target};") ++
      s!" default: goto {otherwise}; \x7d"

/-- The jump targets in the order in which they are written, each with its slot: that of a case is its
number, and the only target of a jump and the one for all other keys of a switch have the slot `none`. -/
def slots : Op τ → List (Option Nat × τ)
  | goto target | branch _ target => [(none, target)]
  | tableSwitch _ _ targets otherwise =>
    (targets.zipIdx.map fun (target, slot) => (some slot, target)) ++ [(none, otherwise)]
  | lookupSwitch _ cases otherwise =>
    (cases.zipIdx.map fun ((_, target), slot) => (some slot, target)) ++ [(none, otherwise)]
  | _ => []

/-- Change the jump target in a slot; nothing changes if there is no such slot. -/
def redirect (slot : Option Nat) (target : τ) : Op τ → Op τ
  | goto old => goto (if slot.isNone then target else old)
  | branch condition old => branch condition (if slot.isNone then target else old)
  | tableSwitch key low targets otherwise =>
    match slot with
    | some slot => tableSwitch key low (targets.modify slot fun _ => target) otherwise
    | none => tableSwitch key low targets target
  | lookupSwitch key cases otherwise =>
    match slot with
    | some slot => lookupSwitch key (cases.modify slot fun (k, _) => (k, target)) otherwise
    | none => lookupSwitch key cases target
  | op => op

/-- Replace the jump targets. -/
def map (f : τ → σ) : Op τ → Op σ
  | assign target value => assign target value
  | identity slot value => identity slot value
  | goto target => goto (f target)
  | branch condition target => branch condition (f target)
  | invoke call => invoke call
  | ret value => ret value
  | retVoid => retVoid
  | monitorEnter lock => monitorEnter lock
  | monitorExit lock => monitorExit lock
  | nop => nop
  | breakpoint => breakpoint
  | tableSwitch key low targets otherwise =>
    tableSwitch key low (targets.map f) (f otherwise)
  | lookupSwitch key cases otherwise =>
    lookupSwitch key (cases.map fun (k, target) => (k, f target)) (f otherwise)
  | subroutineReturn slot => subroutineReturn slot
  | throw exception => throw exception

end Op

/-- The printed form of an instruction's position. -/
def positionText (index : Nat) : String := s!"#{index}"

/-- An instruction of a finished body; its jump targets are positions in the stream. -/
structure Instr where
  op : Op Nat
  location : Location
  deriving Inhabited

namespace Instr

/-- The printed form of an instruction. -/
def text (instr : Instr) : String := (instr.op.map positionText).render

instance : ToString Instr := ⟨text⟩

end Instr

end GuardedFlow
