/-
# The configuration file

The configuration holds the settings of a compile and the least severity that is logged.  The file
may be absent; one that is there must be right in all its parts, and so every configuration has a
page of at least one row and a log level that is a severity.
-/
import IndexQuery.File.Basic
import IndexQuery.Json.Reader
import IndexQuery.Log.Entry
import IndexQuery.Settings

namespace IndexQuery

/-- What makes a configuration file unusable. -/
inductive ConfigFault where
  | unreadable (fault : ReadFault)
  | notJson
  | emptyPage
  | unknownSeverity (name : String)
  deriving DecidableEq

/-- The fault in words. -/
def ConfigFault.message : ConfigFault → String
  | unreadable fault => "Failed to read config: " ++ fault.message
  | notJson => "Invalid config JSON:"
  | emptyPage => "default_page_size must be > 0"
  | unknownSeverity name => Severity.unknown name

/-- A configuration.  The log level is kept as it is written, beside the severity it names. -/
structure Config where
  settings : Settings := {}
  logLevel : String := "warn"
  severity : Severity := .warn
  pageSize_ne_zero : settings.pageSize ≠ 0 := by decide
  ofName_logLevel : Severity.ofName logLevel = .ok severity := by rfl

namespace Config

/-- The parts of a configuration as a document gives them. -/
def partsOf? (d : Document) : Option (Settings × String) :=
  match d.record? ["compiler", "log_level"] with
  | some [settings, logLevel] => do
    let settings ← Document.orDefault Settings.ofDocument? {} settings
    let logLevel ← Document.orDefault Document.str? "warn" logLevel
    return (settings, logLevel)
  | _ => none

/-- The configuration of two parts: the page first, then the log level. -/
def ofParts (settings : Settings) (logLevel : String) : Except ConfigFault Config :=
  if hp : settings.pageSize = 0 then .error .emptyPage
  else
    match hs : Severity.ofName logLevel with
    | .error name => .error (.unknownSeverity name)
    | .ok severity => .ok ⟨settings, logLevel, severity, hp, hs⟩

/-- The configuration of a text. -/
def parse (text : String) : Except ConfigFault Config :=
  match (Document.parse? text).bind partsOf? with
  | none => .error .notJson
  | some (settings, logLevel) => ofParts settings logLevel

/-- The configuration of a file, or the default one. -/
def load : FileState → Except ConfigFault Config
  | .absent _ => .ok {}
  | file =>
    match file.text with
    | .error fault => .error (.unreadable fault)
    | .ok text => parse text

/-- The JSON form of a configuration. -/
def toJson (c : Config) : Json :=
  .obj [("compiler", c.settings.toJson), ("log_level", .str c.logLevel)]

end Config

end IndexQuery
