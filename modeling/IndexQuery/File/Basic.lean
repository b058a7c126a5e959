/-
# Files

What stands at a path: nothing, something that cannot be read, or bytes.  The two failures are kept
apart because a file that may be absent must still be readable when it is there.
-/
namespace IndexQuery

/-- Why a file has no text. -/
inductive ReadFault where
  | system (reason : String) (code : Nat)
  | nulInName
  | notText
  deriving DecidableEq

namespace ReadFault

/-- Nothing of that name. -/
def missing : ReadFault := system "No such file or directory" 2

/-- A file where a directory is wanted. -/
def notDirectory : ReadFault := system "Not a directory" 20

/-- A directory where a file is wanted. -/
def isDirectory : ReadFault := system "Is a directory" 21

/-- A name, or a whole path, beyond the limits of the system. -/
def nameTooLong : ReadFault := system "File name too long" 36

/-- The fault in words. -/
def message : ReadFault → String
  | system reason code => s!"{reason} (os error {code})"
  | nulInName => "file name contained an unexpected NUL byte"
  | notText => "stream did not contain valid UTF-8"

end ReadFault

/-- The text of bytes that are UTF-8. -/
def utf8Text (bytes : ByteArray) : Except ReadFault String :=
  match String.fromUTF8? bytes with
  | some text => .ok text
  | none => .error .notText

/-- What stands at a path. -/
inductive FileState where
  | absent (fault : ReadFault)
  | unreadable (fault : ReadFault)
  | bytes (content : ByteArray)

/-- The text of a file. -/
def FileState.text : FileState → Except ReadFault String
  | absent fault | unreadable fault => .error fault
  | bytes content => utf8Text content

end IndexQuery
