import GuardedFlow.Ty

/-!
# Variables

A variable is a storage location with a name, a type and a role. Names are for display only: what
tells two variables apart is the number each was given when it was made. `VarSupply` hands these
numbers out and never gives one twice.
-/

namespace GuardedFlow

/-- What a variable stands for. -/
inductive VarRole where
  /-- A local that the body declares. -/
  | declared
  | parameter (index : Nat)
  /-- The object on which an instance method was called. -/
  | receiver
  /-- The variable that returned values are assigned to. -/
  | result
  /-- The exception that a handler has caught. -/
  | exception
  /-- A variable introduced by the lowering. -/
  | temporary
  /-- A static field or a heap map, shared by all methods of a program. -/
  | global
  deriving DecidableEq, Inhabited

namespace VarRole

/-- The printed form of a role. -/
def text : VarRole → String
  | declared => "local"
  | parameter index => s!"param {index}"
  | receiver => "this"
  | result => "return"
  | exception => "exception"
  | temporary => "temp"
  | global => "global"

instance : ToString VarRole := ⟨text⟩

end VarRole

/-- A named, typed storage location. -/
structure Var where
  id : Nat
  name : String
  ty : Ty
  role : VarRole
  deriving DecidableEq, Inhabited

namespace Var

/-- Whether two variables are the same one. -/
def same (v w : Var) : Bool := v.id == w.id

instance : ToString Var := ⟨name⟩

/-- Whether a variable is shared by all methods of a program. -/
def isGlobal (v : Var) : Bool := v.role == .global

/-- Add a variable at the end of a list, unless the list has it. -/
def insert (vars : List Var) (v : Var) : List Var :=
  if vars.any v.same then vars else vars ++ [v]

end Var

/-- Numbers for new variables; all numbers below `next` are taken. -/
structure VarSupply where
  next : Nat
  deriving DecidableEq, Inhabited

namespace VarSupply

/-- The supply from which nothing was taken yet. -/
def fresh : VarSupply := ⟨0⟩

/-- A new variable, different from all that the supply has made before. -/
def mint (supply : VarSupply) (name : String) (ty : Ty) (role : VarRole) : Var × VarSupply :=
  (⟨supply.next, name, ty, role⟩, ⟨supply.next + 1⟩)

/-- New variables, one after another. -/
def mintAll (supply : VarSupply) : List (String × Ty × VarRole) → List Var × VarSupply
  | [] => ([], supply)
  | (name, ty, role) :: rest =>
    let (v, supply) := supply.mint name ty role
    let (vs, supply) := supply.mintAll rest
    (v :: vs, supply)

end VarSupply

end GuardedFlow
