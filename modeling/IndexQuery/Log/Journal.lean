/-
# The journal

The journal holds the entries written so far and the least severity that is written; an entry below
it leaves the journal as it is.

A scope brackets an operation: it writes `<name>_BEGIN` when it is opened and `<name>_COMPLETE` or
`<name>_ERROR` when it ends, each with the fields of the scope.  A scope that is given up before it
ended writes an error of its own.
-/
import IndexQuery.Log.Entry

namespace IndexQuery

/-- The entries written so far, oldest first, and the least severity that is written. -/
structure Journal where
  threshold : Severity := .warn
  entries : List LogEntry := []
  deriving DecidableEq

namespace Journal

/-- Whether entries of a severity are written. -/
def enabled (j : Journal) (severity : Severity) : Bool :=
  j.threshold ≤ severity

/-- The journal after an entry. -/
def log (j : Journal) (e : LogEntry) : Journal :=
  if j.enabled e.severity then { j with entries := j.entries ++ [e] } else j

/-- The lines written so far. -/
def lines (j : Journal) : List String :=
  j.entries.map LogEntry.text

/-- The text written so far. -/
def text (j : Journal) : String :=
  "".intercalate (j.entries.map LogEntry.line)

@[simp] theorem threshold_log (j : Journal) (e : LogEntry) :
    (j.log e).threshold = j.threshold := by
  unfold log
  split <;> rfl

end Journal

/-- A bracket around an operation. -/
structure Scope where
  name : String
  fields : LogFields
  ended : Bool := false
  deriving DecidableEq

namespace Scope

/-- A new scope, whose beginning is written. -/
def start (name : String) (fields : LogFields) (j : Journal) : Scope × Journal :=
  (⟨name, fields, false⟩, j.log ⟨.trace, name ++ "_BEGIN", fields⟩)

/-- The scope ended well, with more fields. -/
def complete (s : Scope) (extra : LogFields) (j : Journal) : Scope × Journal :=
  ({ s with ended := true }, j.log ⟨.info, s.name ++ "_COMPLETE", s.fields ++ extra⟩)

/-- The scope ended with an error. -/
def fail (s : Scope) (code reason : String) (j : Journal) : Scope × Journal :=
  ({ s with ended := true },
    j.log ⟨.error, s.name ++ "_ERROR", s.fields ++ [("code", code), ("reason", reason)]⟩)

/-- The scope is given up, which is an error unless it has ended. -/
def abandon (s : Scope) (j : Journal) : Journal :=
  if s.ended then j
  else j.log ⟨.error, s.name ++ "_ERROR",
    s.fields ++ [("reason", "scope dropped without completion")]⟩

end Scope

end IndexQuery
