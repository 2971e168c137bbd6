import SqlSyntax.Text.Location

/-!
# Diagnostics

Problems in a text never stop the work: they are recorded in order, each with a
severity, a message and, where one is known, a location.

## Main definitions

* `Severity`, `Diagnostic` — one recorded problem.
* `Diagnostic.text` — the problem written on one line.
* `Diagnostics` — a record of problems, oldest first.
-/

namespace SqlSyntax

/-- How serious a problem is. -/
inductive Severity
  /-- Suspicious input that is accepted. -/
  | warning
  /-- Input that cannot be taken as written. -/
  | error
  deriving DecidableEq, Repr, Inhabited

/-- The label of a severity. -/
def Severity.label : Severity → String
  | .warning => "WARNING"
  | .error => "ERROR"

/-- A recorded problem. -/
structure Diagnostic where
  /-- How serious it is. -/
  severity : Severity
  /-- What is wrong. -/
  message : String
  /-- Where, if known. -/
  location : Option Location
  deriving DecidableEq, Repr, Inhabited

namespace Diagnostic

/-- Whether the problem is an error. -/
def isError (d : Diagnostic) : Bool :=
  d.severity = .error

/-- Whether the problem is a warning. -/
def isWarning (d : Diagnostic) : Bool :=
  d.severity = .warning

/-- The problem on one line: severity, message and location. -/
def text (d : Diagnostic) : String :=
  d.severity.label ++ ": " ++ d.message
    ++ d.location.elim "" fun l => " at " ++ l.text

end Diagnostic

/-- Problems in the order in which they were found. -/
abbrev Diagnostics := List Diagnostic

namespace Diagnostics

/-- Records a problem after all others. -/
def report (ds : Diagnostics) (severity : Severity) (message : String)
    (location : Option Location) : Diagnostics :=
  ds ++ [⟨severity, message, location⟩]

/-- Whether an error has been recorded. -/
def hasError (ds : Diagnostics) : Bool :=
  ds.any Diagnostic.isError

end Diagnostics

end SqlSyntax
