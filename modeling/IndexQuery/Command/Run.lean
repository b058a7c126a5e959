/-
# Running a command

A command loads its configuration and its schema, reads one request, and writes the answer.  A
rejected compile is an answer of its own and a failure; an explanation explains the rejection and
succeeds.  Whatever becomes of the request, the counters are logged at the end.
-/
import IndexQuery.Command.Config
import IndexQuery.Command.Line
import IndexQuery.Command.Request
import IndexQuery.Schema.File

namespace IndexQuery

/-! ## 1. Failures -/

/-- Why a command fails. -/
inductive CommandError where
  | config (fault : ConfigFault)
  | schema (error : SchemaError)
  | request (fault : RequestFault)
  | rejected (error : CompileError)
  deriving DecidableEq

namespace CommandError

/-- The code of a failure; a rejection keeps its own. -/
def code : CommandError → String
  | config _ => "RQ_CLI_CONFIG_ERROR"
  | schema _ => "RQ_CLI_SCHEMA_ERROR"
  | request fault => fault.code
  | rejected e => e.code

/-- The failure in words.  A schema error ends with its own code, but where the words of a JSON
reader would follow, the message stops. -/
def message : CommandError → String
  | config fault => fault.message
  | schema (.malformed path .notJson) => (SchemaError.malformed path .notJson).message
  | schema e => s!"{e.message} ({e.code})"
  | request fault => fault.message
  | rejected e => e.message

/-- The code and the message. -/
def display (e : CommandError) : String :=
  s!"{e.code}: {e.message}"

end CommandError

/-! ## 2. The files -/

/-- What a command has before it reads its request. -/
structure Workspace where
  config : Config
  schema : Schema

/-- Loads the configuration, then the schema. -/
def Workspace.load (files : String → FileState) (i : Invocation) :
    Except CommandError Workspace := do
  let config ← (Config.load (files i.configPath)).mapError .config
  let schema ← (Schema.load i.schemaPath (files i.schemaPath)).mapError .schema
  return { config, schema }

/-! ## 3. The request -/

/-- What a command leaves behind: the exit code and the texts it wrote. -/
structure Outcome where
  exitCode : Nat
  stdout : String
  stderr : String
  deriving DecidableEq

namespace Outcome

/-- The outcome of a failure before there is a session. -/
def failed (e : CommandError) : Outcome :=
  ⟨1, "", e.display ++ "\n"⟩

/-- The outcome of a session that wrote a text. -/
def ofSession (written : String) (error : Option CommandError) (s : Session) : Outcome :=
  match error with
  | none => ⟨0, written, s.journal.text⟩
  | some e => ⟨1, written, s.journal.text ++ e.display ++ "\n"⟩

end Outcome

/-- The line of an answer. -/
def Response.line (r : Response) : String :=
  (Json.obj [("data", r.toJson), ("status", .str "ok")]).text ++ "\n"

/-- The line of a rejection. -/
def CompileError.line (e : CompileError) : String :=
  (Json.obj [("code", .str e.code), ("message", .str e.message), ("status", .str "error")]).text
    ++ "\n"

/-- Runs a command on an expression: what it writes, and how it failed. -/
def Command.run (command : Command) (w : Workspace) (e : Expr) (s : Session) :
    (String × Option CommandError) × Session :=
  match command with
  | .compile mode =>
    match respond mode w.schema w.config.settings e s with
    | (.ok r, s) => ((r.line, none), s)
    | (.error e, s) => ((e.line, some (.rejected e)), s)
  | .explain mode =>
    let (x, s) := IndexQuery.explain mode w.schema w.config.settings e s
    ((x.text, none), s)

/-- Runs a command on the bytes of a request, which may be no expression. -/
def Command.runOn (command : Command) (w : Workspace) (input : ByteArray) (s : Session) :
    (String × Option CommandError) × Session :=
  match Request.read input with
  | .error fault => (("", some (.request fault)), s)
  | .ok e => command.run w e s

/-- Runs a command in a session of its own and logs the counters. -/
def Workspace.answer (w : Workspace) (command : Command) (input : ByteArray) : Outcome :=
  let ((written, error), s) := command.runOn w input (.atThreshold w.config.severity)
  .ofSession written error (s.log ⟨.info, "CLI_COMPILE_METRICS", s.counters.fields⟩)

/-- Runs what a line asks for, on files and the bytes of a request. -/
def Invocation.run (i : Invocation) (files : String → FileState) (input : ByteArray) : Outcome :=
  match Workspace.load files i with
  | .error e => .failed e
  | .ok w => w.answer i.command input

end IndexQuery
