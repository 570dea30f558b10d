/-!
# Tables

A table keeps one value for each key. Values are numbered in the order in which their keys were first
asked for, and the number of a value never changes: the first request for a key decides, and all later
ones get the same number.
-/

namespace GuardedFlow

/-- Values by key, in order of first request. -/
structure Table (κ α : Type) where
  entries : Array (κ × α)
  deriving Inhabited

namespace Table

variable {κ α : Type}

/-- The table without values. -/
def empty : Table κ α := ⟨#[]⟩

/-- The number of values. -/
def size (t : Table κ α) : Nat := t.entries.size

/-- The number of the value for a key. -/
def find? [BEq κ] (t : Table κ α) (key : κ) : Option Nat :=
  t.entries.findIdx? (·.1 == key)

/-- The value with a number. -/
def get? (t : Table κ α) (id : Nat) : Option α := t.entries[id]?.map (·.2)

/-- The value for a key. -/
def lookup [BEq κ] (t : Table κ α) (key : κ) : Option α := (t.find? key).bind t.get?

/-- The number of the value for a key, which is added if there is none. -/
def intern [BEq κ] (t : Table κ α) (key : κ) (value : α) : Nat × Table κ α :=
  match t.find? key with
  | some id => (id, t)
  | none => (t.size, ⟨t.entries.push (key, value)⟩)

/-- Change the value with a number. -/
def modify (t : Table κ α) (id : Nat) (f : α → α) : Table κ α :=
  ⟨t.entries.modify id fun (key, value) => (key, f value)⟩

/-- The values in order of their numbers. -/
def values (t : Table κ α) : List α := t.entries.toList.map (·.2)

end Table

end GuardedFlow
