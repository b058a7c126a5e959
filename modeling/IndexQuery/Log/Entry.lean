/-
# Log entries

An entry is an event with a severity and named fields.  Its line is one JSON object: the event and
the severity first, then the fields sorted by name, fields of one name in the order given.  Every
control character is escaped, so the line has no line break inside.
-/
import IndexQuery.Json.Printer
import IndexQuery.Plan.Basic

namespace IndexQuery

/-- How much an event matters. -/
inductive Severity where
  | trace | info | warn | error | fatal
  deriving DecidableEq

namespace Severity

/-- The severity in a log line. -/
def name : Severity → String
  | trace => "TRACE"
  | info => "INFO"
  | warn => "WARN"
  | error => "ERROR"
  | fatal => "FATAL"

/-- The place in the order of severities. -/
def rank : Severity → Nat
  | trace => 0
  | info => 1
  | warn => 2
  | error => 3
  | fatal => 4

instance : LE Severity := ⟨fun a b => a.rank ≤ b.rank⟩

instance (a b : Severity) : Decidable (a ≤ b) := inferInstanceAs (Decidable (a.rank ≤ b.rank))

/-- The severity of a name in any case of ASCII letters, or the name that is none. -/
def ofName (s : String) : Except String Severity :=
  match lowerText s with
  | "trace" => .ok trace
  | "info" => .ok info
  | "warn" => .ok warn
  | "error" => .ok error
  | "fatal" => .ok fatal
  | other => .error other

/-- The message for a name that is no severity. -/
def unknown (name : String) : String :=
  s!"Unknown log level '{name}'"

end Severity

/-- Named texts. -/
abbrev LogFields := List (String × String)

/-- An event of the log. -/
structure LogEntry where
  severity : Severity
  event : String
  fields : LogFields
  deriving DecidableEq

namespace LogEntry

/-- A control character: the two ranges of the category Cc. -/
def isControl (c : Char) : Bool :=
  c.toNat < 0x20 || (0x7F ≤ c.toNat && c.toNat ≤ 0x9F)

/-- A character as it stands in a log line. -/
def escapeChar (c : Char) : List Char :=
  if c == '"' then ['\\', '"']
  else if c == '\\' then ['\\', '\\']
  else if c == '\n' then ['\\', 'n']
  else if c == '\r' then ['\\', 'r']
  else if c == '\t' then ['\\', 't']
  else if isControl c then controlEscape c
  else [c]

/-- A text in quotes as it stands in a log line. -/
def quote (s : String) : String :=
  String.ofList ('"' :: s.toList.flatMap escapeChar ++ ['"'])

/-- The fields by name, fields of one name in the order given. -/
def sortedFields (fields : LogFields) : LogFields :=
  fields.mergeSort fun a b => a.1 ≤ b.1

/-- The members of the line: event and severity, then the fields. -/
def members (e : LogEntry) : LogFields :=
  ("event", e.event) :: ("severity", e.severity.name) :: sortedFields e.fields

/-- The JSON object of an entry. -/
def text (e : LogEntry) : String :=
  "\x7b" ++ ",".intercalate (e.members.map fun m => quote m.1 ++ ":" ++ quote m.2) ++ "\x7d"

/-- The line of an entry, with its line break. -/
def line (e : LogEntry) : String :=
  e.text ++ "\n"

end LogEntry

end IndexQuery
