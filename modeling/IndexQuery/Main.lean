/-
# The program

Reads the command line, the two files and the request, and writes the outcome.
-/
import IndexQuery.Command.Run

namespace IndexQuery

/-- What a failed read says of a path; the code of the system may come negated. -/
def failedRead (code : UInt32) (reason : String) : FileState :=
  match (if code < 0x80000000 then code else 0 - code).toNat with
  | 20 => .absent .notDirectory
  | 21 => .unreadable .isDirectory
  | code => .unreadable (.system reason code)

/-- Reads the file at a path. -/
def readState (path : String) : IO FileState := do
  try
    return .bytes (← IO.FS.readBinFile path)
  catch
    | .noFileOrDirectory .. => return .absent .missing
    | .inappropriateType _ code reason => return failedRead code reason
    | .permissionDenied _ code reason => return failedRead code reason
    | e => return failedRead 5 (toString e)

/-- Writes an outcome. -/
def Outcome.write (o : Outcome) : IO UInt32 := do
  IO.eprint o.stderr
  IO.print o.stdout
  return o.exitCode.toUInt32

/-- The usage text. -/
def usageText : String :=
  "Usage: indexquery [--config <PATH>] [--schema <PATH>] <search|aggregate|explain [--mode <MODE>]>"

end IndexQuery

open IndexQuery in
def main (words : List String) : IO UInt32 := do
  match CommandLine.parse words with
  | .error usage =>
    IO.eprintln usageText
    return usage.exitCode.toUInt32
  | .ok i =>
    let config ← readState i.configPath
    let schema ← readState i.schemaPath
    match Workspace.load (fun path => if path == i.configPath then config else schema) i with
    | .error e => (Outcome.failed e).write
    | .ok w =>
      let input ← (← IO.getStdin).readBinToEnd
      (w.answer i.command input).write
