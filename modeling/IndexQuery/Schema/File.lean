/-
# Schema files

A schema file must be there, hold text, and describe a schema without faults.  Its path stands in
every message about it.

`Schema.load` is `load_file` of `SchemaLoader`, and `Schema.parseFrom` its `parse`.
-/
import IndexQuery.File.Basic
import IndexQuery.Schema.Json

namespace IndexQuery

/-- Why a schema cannot be used. -/
inductive SchemaError where
  | unreadable (path : String) (fault : ReadFault)
  | malformed (path : String) (fault : SchemaFault)
  deriving DecidableEq

namespace SchemaError

/-- The code of the error. -/
def code : SchemaError → String
  | unreadable .. => "RQ_SCHEMA_IO"
  | malformed .. => "RQ_SCHEMA_MALFORMED"

/-- The error in words. -/
def message : SchemaError → String
  | unreadable path fault => s!"Failed to read schema '{path}': {fault.message}"
  | malformed path fault => s!"Malformed schema '{path}': {fault.message}"

end SchemaError

namespace Schema

/-- The schema of a text that came from a path. -/
def parseFrom (path text : String) : Except SchemaError Schema :=
  (parse text).mapError (.malformed path)

/-- The schema of a file. -/
def load (path : String) (file : FileState) : Except SchemaError Schema :=
  match file.text with
  | .error fault => .error (.unreadable path fault)
  | .ok text => parseFrom path text

end Schema

end IndexQuery
