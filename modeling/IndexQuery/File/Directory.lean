/-
# A directory held in memory

A directory of files and subdirectories, in which a path is followed name by name.  A dot and an
empty name stay where they are, two dots go up, and only a directory has anything below it.
Outside the directory there are further directories, which hold nothing that is known.

A name has at most 255 bytes, a path at most 4095, and no path has a NUL character.
-/
import IndexQuery.File.Basic

namespace IndexQuery

/-- What a path in a directory stands for. -/
inductive DirectoryEntry where
  | file (content : ByteArray)
  | subdirectory

/-- A directory: its files and subdirectories by their paths, names joined by slashes.  The
directories on the way to an entry need not be listed. -/
structure Directory where
  entries : List (String × DirectoryEntry)

namespace Directory

/-- Where a path has led so far: a directory inside, by the names that lead to it, one outside, or
a file. -/
inductive Place where
  | inside (names : List String)
  | outside
  | file (content : ByteArray)

/-- One directory up. -/
def Place.parent : Place → Place
  | inside (name :: names) => inside (name :: names).dropLast
  | _ => outside

/-- What stands at a path: an entry, or a directory on the way to one. -/
def entry? (d : Directory) (path : String) : Option DirectoryEntry :=
  match d.entries.lookup path with
  | some entry => some entry
  | none => if d.entries.any (·.1.startsWith (path ++ "/")) then some .subdirectory else none

/-- An entry of the directory that names lead to. -/
def enter (d : Directory) (names : List String) (name : String) : Except ReadFault Place :=
  match d.entry? ("/".intercalate (names ++ [name])) with
  | some (.file content) => .ok (.file content)
  | some .subdirectory => .ok (.inside (names ++ [name]))
  | none => .error .missing

/-- One more name of a path. -/
def follow (d : Directory) (place : Place) (name : String) : Except ReadFault Place :=
  match place with
  | .file _ => .error .notDirectory
  | place =>
    if name == "" || name == "." then .ok place
    else if name == ".." then .ok place.parent
    else if 255 < name.utf8ByteSize then .error .nameTooLong
    else
      match place with
      | .inside names => d.enter names name
      | _ => .error .missing

/-- Where a path leads. -/
def resolve (d : Directory) (path : String) : Except ReadFault Place :=
  if path.toList.contains '\x00' then .error .nulInName
  else if path == "" then .error .missing
  else if 4095 < path.utf8ByteSize then .error .nameTooLong
  else
    let start := if path.toList.head? == some '/' then Place.outside else .inside []
    (path.splitOn "/").foldlM d.follow start

/-- What stands at a path. -/
def state (d : Directory) (path : String) : FileState :=
  match d.resolve path with
  | .error fault => .absent fault
  | .ok (.file content) => .bytes content
  | .ok _ => .unreadable .isDirectory

end Directory

end IndexQuery
