/-
# Settings of a compile

The window that a chain gets when it names only one of its two parts.

They are `CompilerConfig`; `Window.take` and `Window.skip` are `apply_take` and `apply_skip`.
-/
import IndexQuery.Json.Document
import IndexQuery.Plan.Basic

namespace IndexQuery

/-- The count of a window with an offset only, and the offset of one with a count only. -/
structure Settings where
  pageSize : UInt64 := 100
  offset : UInt64 := 0
  deriving DecidableEq

namespace Settings

/-- The settings that a document describes; each has a default. -/
def ofDocument? (d : Document) : Option Settings :=
  match d.record? ["default_page_size", "default_offset"] with
  | some [pageSize, offset] => do
    let pageSize ← Document.orDefault Document.uint64? 100 pageSize
    let offset ← Document.orDefault Document.uint64? 0 offset
    return { pageSize, offset }
  | _ => none

/-- The JSON form of the settings. -/
def toJson (s : Settings) : Json :=
  .obj [("default_offset", Json.ofUInt64 s.offset),
    ("default_page_size", Json.ofUInt64 s.pageSize)]

end Settings

namespace Window

/-- The window with a count, made with the default offset if there is none yet. -/
def take (s : Settings) (count : UInt64) : Option Window → Window
  | some w => { w with count }
  | none => { offset := s.offset, count }

/-- The window with an offset, made with the default count if there is none yet. -/
def skip (s : Settings) (offset : UInt64) : Option Window → Window
  | some w => { w with offset }
  | none => { offset, count := s.pageSize }

end Window

end IndexQuery
