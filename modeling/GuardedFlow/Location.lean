/-!
# Source positions

Where an instruction came from. File and line are known independently of each other, and a position
of which neither is known is the unknown one.
-/

namespace GuardedFlow

/-- A source position, as far as it is known. -/
structure Location where
  file : Option String
  line : Option UInt32
  deriving DecidableEq, Inhabited

namespace Location

/-- The position of which nothing is known. -/
def unknown : Location := ⟨none, none⟩

/-- Whether neither file nor line is known. -/
def isUnknown (location : Location) : Bool :=
  location.file.isNone && location.line.isNone

/-- The printed form of a position. -/
def text (location : Location) : String :=
  match location.file, location.line with
  | some file, some line => s!"{file}:{line}"
  | some file, none => file
  | none, some line => s!"line {line}"
  | none, none => "<unknown>"

instance : ToString Location := ⟨text⟩

end Location

end GuardedFlow
