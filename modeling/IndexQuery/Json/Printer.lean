/-
# JSON text, and constants as plain text

`Json.text` is the compact JSON text of a value: no blanks, the members of an object in their
order, and in a string only the quote, the backslash and the control characters below the blank
escaped.

`Json.plain` is how a constant enters a query: a string stands for itself, an array is its items
joined by commas, at any depth, and an object is its JSON text.
-/
import IndexQuery.Json.Basic

namespace IndexQuery

/-- The lower-case hexadecimal digit of a number below sixteen. -/
def hexDigit (n : Nat) : Char :=
  (Nat.toDigits 16 n).headD '0'

/-- A control character by its code point, in four hexadecimal digits. -/
def controlEscape (c : Char) : List Char :=
  ['\\', 'u', '0', '0', hexDigit (c.toNat / 16), hexDigit (c.toNat % 16)]

namespace Json

/-- A character as it stands in a JSON string. -/
def escapeChar (c : Char) : List Char :=
  if c == '"' then ['\\', '"']
  else if c == '\\' then ['\\', '\\']
  else if c == '\x08' then ['\\', 'b']
  else if c == '\x0c' then ['\\', 'f']
  else if c == '\n' then ['\\', 'n']
  else if c == '\r' then ['\\', 'r']
  else if c == '\t' then ['\\', 't']
  else if c.toNat < 0x20 then controlEscape c
  else [c]

/-- A text as a JSON string. -/
def quote (s : String) : String :=
  String.ofList ('"' :: s.toList.flatMap escapeChar ++ ['"'])

mutual

/-- The compact JSON text of a value. -/
def text : Json → String
  | .null => "null"
  | .bool true => "true"
  | .bool false => "false"
  | .num n => n.text
  | .str s => quote s
  | .arr items => "[" ++ ",".intercalate (itemTexts items) ++ "]"
  | .obj members => "\x7b" ++ ",".intercalate (memberTexts members) ++ "\x7d"
termination_by structural j => j

/-- The JSON text of each item. -/
def itemTexts : List Json → List String
  | [] => []
  | item :: rest => item.text :: itemTexts rest
termination_by structural items => items

/-- The JSON text of each member: its name, a colon, its value. -/
def memberTexts : List (String × Json) → List String
  | [] => []
  | (key, value) :: rest => (quote key ++ ":" ++ value.text) :: memberTexts rest
termination_by structural members => members

end

mutual

/-- A constant as it enters a query. -/
def plain : Json → String
  | .null => "null"
  | .bool true => "true"
  | .bool false => "false"
  | .num n => n.text
  | .str s => s
  | .arr items => ",".intercalate (plainTexts items)
  | .obj members => (Json.obj members).text
termination_by structural j => j

/-- Each item as it enters a query. -/
def plainTexts : List Json → List String
  | [] => []
  | item :: rest => item.plain :: plainTexts rest
termination_by structural items => items

end

end Json

end IndexQuery
