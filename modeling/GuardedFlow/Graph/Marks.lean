/-!
# Marks on nodes

A walk marks the nodes that it has come across. Marks are kept for the nodes below a bound, and every
other number counts as marked from the start, so a walk never leaves its graph. `Marks.room` counts
the nodes that are not marked yet, and bounds the walk.
-/

namespace GuardedFlow

/-- For every node whether it is marked. -/
structure Marks where
  flags : Array Bool

namespace Marks

/-- No marks on the nodes below a bound. -/
def none (bound : Nat) : Marks := ⟨Array.replicate bound false⟩

/-- Whether a node can still be marked. -/
def free (marks : Marks) (n : Nat) : Bool := marks.flags[n]? == some false

/-- Mark a node. -/
def mark (marks : Marks) (n : Nat) : Marks := ⟨marks.flags.setIfInBounds n true⟩

/-- The number of nodes that can still be marked. -/
def room (marks : Marks) : Nat := marks.flags.count false

/-- Without marks, every number below the bound is free. -/
@[simp] theorem free_none (bound n : Nat) : (none bound).free n = decide (n < bound) := by
  by_cases h : n < bound <;> simp [none, free, h]

/-- A mark takes one number. -/
@[simp] theorem free_mark (marks : Marks) (k n : Nat) :
    (marks.mark k).free n = (marks.free n && k != n) := by
  by_cases h : k = n
  · subst h
    by_cases hk : k < marks.flags.size <;> simp [mark, free, hk]
  · simp [mark, free, h, bne_iff_ne.mpr h]

/-- Without marks, there is room for all numbers. -/
@[simp] theorem room_none (bound : Nat) : (none bound).room = bound := by
  simp [none, room]

/-- Marking a free node leaves one free node less. -/
theorem room_mark {marks : Marks} {n : Nat} (h : marks.free n = true) :
    (marks.mark n).room + 1 = marks.room := by
  have hn : n < marks.flags.size := by
    refine Nat.lt_of_not_le fun hn => ?_
    simp [free, Array.getElem?_eq_none hn] at h
  have hf : marks.flags[n] = false := by simpa [free, hn] using h
  have hc : 0 < marks.flags.count false := Array.count_pos_iff.mpr (hf ▸ Array.getElem_mem hn)
  simp only [mark, room, Array.setIfInBounds, hn, ↓reduceDIte, Array.count_set, hf]
  simp
  omega

end Marks

end GuardedFlow
