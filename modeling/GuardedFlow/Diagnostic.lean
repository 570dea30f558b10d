import GuardedFlow.Location

/-!
# Diagnostics

Findings that do not stop the lowering but limit what its result says. A log keeps them in the order
in which they were reported. Its summary counts the findings of each severity and lists those that
are more than informational.
-/

namespace GuardedFlow

/-- How serious a finding is. -/
inductive Severity where
  /-- The code is lowered, but modelled only approximately. -/
  | info
  /-- The lowered code is not sound here. -/
  | warning
  /-- A method could not be lowered at all. -/
  | error
  deriving DecidableEq, Inhabited

namespace Severity

/-- The printed form of a severity. -/
def text : Severity → String
  | info => "INFO"
  | warning => "WARN"
  | error => "ERROR"

end Severity

/-- What part of the lowering a finding is about. -/
inductive Category where
  | call
  | memory
  | monitor
  | type
  | control
  | general
  deriving DecidableEq, Inhabited

namespace Category

/-- The printed form of a category. -/
def text : Category → String
  | call => "Call"
  | memory => "Memory"
  | monitor => "Monitor"
  | type => "Type"
  | control => "Control"
  | general => "General"

end Category

/-- A finding. -/
structure Diagnostic where
  severity : Severity
  category : Category
  message : String
  /-- The signature of the method that was being lowered. -/
  method : Option String := none
  location : Option Location := none
  deriving DecidableEq, Inhabited

namespace Diagnostic

/-- The printed form of a finding. -/
def text (d : Diagnostic) : String :=
  s!"[{d.severity.text}] {d.category.text}: {d.message}" ++
    (match d.method with
      | some method => s!" (method: {method})"
      | none => "") ++
    (match d.location with
      | some location => s!" (at {location})"
      | none => "")

instance : ToString Diagnostic := ⟨text⟩

end Diagnostic

/-- Findings in the order in which they were reported. -/
structure Log where
  entries : Array Diagnostic
  deriving DecidableEq, Inhabited

namespace Log

/-- The log without findings. -/
def empty : Log := ⟨#[]⟩

/-- Report a finding. -/
def push (log : Log) (d : Diagnostic) : Log := ⟨log.entries.push d⟩

/-- The number of findings. -/
def size (log : Log) : Nat := log.entries.size

/-- All findings. -/
def toList (log : Log) : List Diagnostic := log.entries.toList

/-- The findings of a severity. -/
def withSeverity (log : Log) (severity : Severity) : List Diagnostic :=
  log.toList.filter (·.severity == severity)

/-- The findings of a category. -/
def withCategory (log : Log) (category : Category) : List Diagnostic :=
  log.toList.filter (·.category == category)

/-- The findings about a method. -/
def forMethod (log : Log) (signature : String) : List Diagnostic :=
  log.toList.filter (·.method == some signature)

/-- The number of findings of a severity. -/
def count (log : Log) (severity : Severity) : Nat :=
  (log.withSeverity severity).length

/-- A heading and the findings below it; nothing if there are none. -/
def listing (title : String) (findings : List Diagnostic) : String :=
  if findings.isEmpty then ""
  else s!"\n{title}:\n" ++ String.join (findings.map fun d => s!"  {d}\n")

/-- The numbers of findings, followed by the errors and the warnings. -/
def summary (log : Log) : String :=
  s!"Diagnostics: {log.count .error} error(s), {log.count .warning} warning(s), " ++
    s!"{log.count .info} info(s)\n" ++
    listing "Errors" (log.withSeverity .error) ++
    listing "Warnings" (log.withSeverity .warning)

end Log

end GuardedFlow
