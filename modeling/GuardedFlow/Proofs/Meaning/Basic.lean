import Mathlib.Logic.Function.Basic
import GuardedFlow.Proofs.Lowering.Emission
import GuardedFlow.Proofs.Meaning.Data

/-!
# The meaning of lowered code

What data, operators, heap maps and calls mean is left open: `Meaning` interprets them by values of any
type, and a constant has the value of what it denotes. Expressions have values in a store, and statements change a store. A variable that a program
keeps as a global is found by its name, which all methods share; all others are found by their number.
-/

namespace GuardedFlow

variable {U : Type}

/-- The values of the global variables by name; the value of a heap map is the whole map. -/
abbrev Globals (U : Type) := String → U

/-- An interpretation of the parts of lowered code by values. -/
structure Meaning (U : Type) where
  /-- The value of what a constant denotes. -/
  datum : Datum → U
  unary : UnaryOp → U → U
  binary : BinaryOp → U → U → U
  /-- The reference that an allocation stands for. -/
  alloc : Ty → U
  /-- The cell of a heap map at some keys. -/
  select : U → List U → U
  /-- A heap map after one of its cells was changed. -/
  update : U → List U → U → U
  /-- The result of a callee with a signature for some arguments, and the globals that it leaves
  behind. -/
  call : String → List U → Globals U → U × Globals U

/-- The values of all variables. -/
structure Store (U : Type) where
  globals : Globals U
  /-- The values of the variables of a body by their numbers. -/
  locals : Nat → U

/-- Whether a variable is the one that a program keeps under its name. -/
def Program.Keeps (p : Program) (v : Var) : Prop := p.globals.lookup v.name = some v

instance (p : Program) (v : Var) : Decidable (p.Keeps v) :=
  inferInstanceAs (Decidable (_ = _))

namespace Store

/-- The value of a variable. -/
def get (p : Program) (σ : Store U) (v : Var) : U :=
  if p.Keeps v then σ.globals v.name else σ.locals v.id

/-- Change the value of a variable. -/
def set (p : Program) (σ : Store U) (v : Var) (u : U) : Store U :=
  if p.Keeps v then { σ with globals := Function.update σ.globals v.name u }
  else { σ with locals := Function.update σ.locals v.id u }

/-- Apart from globals, only the given variables have other values than before. -/
def ChangesOnly (vars : List Var) (σ σ' : Store U) : Prop :=
  ∀ id, σ'.locals id ≠ σ.locals id → id ∈ vars.map Var.id

end Store

namespace Meaning

variable (M : Meaning U) (p : Program)

mutual

/-- The value of an expression. -/
def value (σ : Store U) : Expr → U
  | .var v => σ.get p v
  | .lit constant => M.datum constant.denoted
  | .unary op operand => M.unary op (value σ operand)
  | .binary op left right => M.binary op (value σ left) (value σ right)
  | .cell map keys => M.select (σ.get p map) (values σ keys)
  | .alloc ty => M.alloc ty

/-- The values of a list of expressions. -/
def values (σ : Store U) : List Expr → List U
  | [] => []
  | e :: rest => value σ e :: values σ rest

end

/-- Store a value in a variable or in a cell. -/
def assign (σ : Store U) : Expr → U → Store U
  | .var v, u => σ.set p v u
  | .cell map keys, u => σ.set p map (M.update (σ.get p map) (M.values p σ keys) u)
  | _, _ => σ

/-- The effect of a statement; a property to be proven or taken for granted has none. -/
def exec (σ : Store U) : StmtKind → Store U
  | .assign target e => M.assign p σ target (M.value p σ e)
  | .assert _ | .assume _ => σ
  | .call callee args result =>
    let (u, globals) := M.call callee.signature (M.values p σ args) σ.globals
    match result with
    | some target => M.assign p { σ with globals } target u
    | none => { σ with globals }

/-- The effect of statements one after another. -/
def run (stmts : List Stmt) (σ : Store U) : Store U :=
  stmts.foldl (fun σ stmt => M.exec p σ stmt.kind) σ

end Meaning

namespace Program.Named

variable {p : Program} {v : Var}

/-- The variables of bodies are not kept by programs. -/
theorem not_keeps (hp : p.Named) (hv : v.role ≠ .global) : ¬ p.Keeps v :=
  fun hkeeps => hv (hp _ _ hkeeps).2

/-- A program keeps the variable that it has under a name. -/
theorem keeps (hp : p.Named) {name : String} (h : p.globals.lookup name = some v) : p.Keeps v := by
  rw [Program.Keeps, (hp _ _ h).1, h]

end Program.Named

namespace Store

variable {p : Program} {σ σ' σ'' : Store U} {vars more : List Var} {v : Var}

/-- A kept variable has the value of the global of its name. -/
theorem get_kept (hp : p.Named) {name : String} (h : p.globals.lookup name = some v) (σ : Store U) :
    σ.get p v = σ.globals name := by
  rw [get, if_pos (hp.keeps h), (hp _ _ h).1]

/-- A kept variable is changed as the global of its name. -/
theorem set_kept (hp : p.Named) {name : String} (h : p.globals.lookup name = some v) (σ : Store U)
    (u : U) : σ.set p v u = { σ with globals := Function.update σ.globals name u } := by
  rw [set, if_pos (hp.keeps h), (hp _ _ h).1]

/-- A variable of a body has the value of its number. -/
theorem get_local (hp : p.Named) (hv : v.role ≠ .global) (σ : Store U) :
    σ.get p v = σ.locals v.id := by
  rw [get, if_neg (hp.not_keeps hv)]

/-- A variable of a body is changed by its number. -/
theorem set_local (hp : p.Named) (hv : v.role ≠ .global) (σ : Store U) (u : U) :
    σ.set p v u = { σ with locals := Function.update σ.locals v.id u } := by
  rw [set, if_neg (hp.not_keeps hv)]

namespace ChangesOnly

/-- A change of globals changes no other variable. -/
theorem of_globals (σ : Store U) (globals : Globals U) (vars : List Var) :
    σ.ChangesOnly vars { σ with globals } :=
  fun _ h => absurd rfl h

/-- A change of globals and of one variable. -/
theorem of_local (σ : Store U) (globals : Globals U) (v : Var) (u : U) :
    σ.ChangesOnly [v] ⟨globals, Function.update σ.locals v.id u⟩ := by
  intro id h
  by_cases hid : id = v.id
  · simp [hid]
  · exact absurd (Function.update_of_ne hid _ _) h

/-- More variables may have changed. -/
theorem mono (h : σ.ChangesOnly vars σ') (hsub : vars ⊆ more) : σ.ChangesOnly more σ' :=
  fun id hid => List.map_subset _ hsub (h id hid)

/-- Changes follow one another. -/
theorem trans (h : σ.ChangesOnly vars σ') (h' : σ'.ChangesOnly vars σ'') : σ.ChangesOnly vars σ'' := by
  intro id hid
  by_cases hsame : σ'.locals id = σ.locals id
  · exact h' id (hsame ▸ hid)
  · exact h id hsame

/-- All other variables have the values that they had. -/
theorem locals_eq (h : σ.ChangesOnly vars σ') {id : Nat} (hid : id ∉ vars.map Var.id) :
    σ'.locals id = σ.locals id := by
  by_contra hne
  exact hid (h id hne)

end ChangesOnly

end Store

namespace Meaning

variable {M : Meaning U} {p : Program} {σ σ' : Store U}

/-- Running no statement changes nothing. -/
@[simp] theorem run_nil (M : Meaning U) (p : Program) (σ : Store U) : M.run p [] σ = σ := rfl

/-- Running statements one after another. -/
theorem run_append (M : Meaning U) (p : Program) (out more : List Stmt) (σ : Store U) :
    M.run p (out ++ more) σ = M.run p more (M.run p out σ) :=
  List.foldl_append

end Meaning

end GuardedFlow
