/-
# The command line

A line names a command, and gives the paths of two files and for `explain` a mode.  It has two
levels: what stands before the command, and what stands after it.  A path may be given once at each
level, and the inner one holds; the mode belongs to the inner level.

A value joined to its option by an equals sign is checked at once.  A value that is a word of its own
is checked only when the reading of its level goes on: so what is asked for after the command (the
help of it) is found before a fault in such an option right in front of the command.
-/
import IndexQuery.Compile.Response

namespace IndexQuery

/-- What is to be done with a request. -/
inductive Command where
  | compile (mode : Mode)
  | explain (mode : Mode)
  deriving DecidableEq

/-- What a line asks for. -/
structure Invocation where
  configPath : String
  schemaPath : String
  command : Command
  deriving DecidableEq

/-- Why a line leads to no command: it asks for help or the version, or it is wrong. -/
inductive Usage where
  | shown | misused
  deriving DecidableEq

/-- The exit code of a line without a command. -/
def Usage.exitCode : Usage → Nat
  | shown => 0
  | misused => 2

namespace CommandLine

/-! ## 1. Tokens -/

/-- A word of the line by its dashes. -/
inductive Token where
  | word (text : String)
  | separator
  | short (letter : Char)
  | long (name : String) (value : Option String)
  deriving DecidableEq

/-- A long option, with the value after the first equals sign. -/
def Token.ofLong (text : List Char) : Token :=
  .long (String.ofList (text.takeWhile (· != '=')))
    (match text.dropWhile (· != '=') with
      | [] => none
      | _ :: value => some (String.ofList value))

/-- The token of a word; a single dash is a plain word. -/
def Token.ofString (text : String) : Token :=
  match text.toList with
  | ['-', '-'] => .separator
  | '-' :: '-' :: rest => .ofLong rest
  | '-' :: letter :: _ => .short letter
  | _ => .word text

/-! ## 2. Options -/

/-- The options. -/
inductive Key where
  | config | schema | mode
  deriving DecidableEq

/-- The option of a name. -/
def Key.ofName? : String → Option Key
  | "config" => some config
  | "schema" => some schema
  | "mode" => some mode
  | _ => none

/-- Whether a value is one of the option's. -/
def Key.accepts (value : String) : Key → Bool
  | config | schema => value != ""
  | mode => (Mode.ofName? value).isSome

/-- The options of one level: those checked, and the last one, which is not checked yet. -/
structure Level where
  checked : List (Key × String) := []
  held : Option (Key × String) := none

namespace Level

/-- The level with its last option checked: it is new and its value is accepted. -/
def settle (l : Level) : Except Usage Level :=
  match l.held with
  | none => .ok l
  | some (key, value) =>
    if (l.checked.lookup key).isNone && key.accepts value then
      .ok { checked := (key, value) :: l.checked }
    else .error .misused

/-- The level with one more option, whose value is a word of its own. -/
def hold (l : Level) (key : Key) (value : String) : Except Usage Level := do
  let l ← l.settle
  return { l with held := some (key, value) }

/-- The level with one more option, whose value is joined to it. -/
def join (l : Level) (key : Key) (value : String) : Except Usage Level := do
  (← l.hold key value).settle

/-- The end of a line that asks for help or the version: the options so far must be right. -/
def stop {α : Type} (l : Level) : Except Usage α := do
  let _ ← l.settle
  .error .shown

/-- The value given for an option. -/
def value? (l : Level) (key : Key) : Option String :=
  l.checked.lookup key

end Level

/-! ## 3. Levels -/

/-- The option of a name that the level knows. -/
def known? (keys : List Key) (name : String) : Option Key :=
  (Key.ofName? name).filter keys.contains

/-- What stands after the command. -/
def inner (keys : List Key) (l : Level) : List String → Except Usage Level
  | [] => l.settle
  | text :: rest =>
    match Token.ofString text, rest with
    | .separator, [] => l.settle
    | .long "help" none, _ | .short 'h', _ => l.stop
    | .long name (some value), rest =>
      match known? keys name with
      | some key => do inner keys (← l.join key value) rest
      | none => .error .misused
    | .long name none, value :: rest =>
      match known? keys name, Token.ofString value with
      | some key, .word value => do inner keys (← l.hold key value) rest
      | _, _ => .error .misused
    | _, _ => .error .misused

/-- The commands, each with the options that may follow it. -/
def command? : String → Option (List Key × (Level → Command))
  | "search" => some ([.config, .schema], fun _ => .compile .search)
  | "aggregate" => some ([.config, .schema], fun _ => .compile .aggregate)
  | "explain" =>
    some ([.config, .schema, .mode],
      fun l => .explain (((l.value? .mode).bind Mode.ofName?).getD .search))
  | _ => none

/-- The help command, which takes at most the name of a command. -/
def help : List String → Usage
  | [] => .shown
  | [topic] => if topic == "help" || (command? topic).isSome then .shown else .misused
  | _ => .misused

/-- The invocation of a command and the options of both levels. -/
def invocation (command : Command) (before after : Level) : Invocation :=
  let path (key : Key) (default : String) : String :=
    ((after.value? key).or (before.value? key)).getD default
  { configPath := path .config "./redquery.json"
    schemaPath := path .schema "./schema.json"
    command }

/-- The whole line, from the options before the command on. -/
def outer (l : Level) : List String → Except Usage Invocation
  | [] => .error .misused
  | text :: rest =>
    match Token.ofString text, rest with
    | .word "help", rest => .error (help rest)
    | .word name, rest =>
      match command? name with
      | some (keys, command) => do
        let after ← inner keys {} rest
        let before ← l.settle
        return invocation (command after) before after
      | none => .error .misused
    | .long "help" none, _ | .long "version" none, _ | .short 'h', _ | .short 'V', _ => l.stop
    | .long name (some value), rest =>
      match known? [.config, .schema] name with
      | some key => do outer (← l.join key value) rest
      | none => .error .misused
    | .long name none, value :: rest =>
      match known? [.config, .schema] name, Token.ofString value with
      | some key, .word value => do outer (← l.hold key value) rest
      | _, _ => .error .misused
    | _, _ => .error .misused

/-- What a line asks for. -/
def parse (words : List String) : Except Usage Invocation :=
  outer {} words

end CommandLine

end IndexQuery
