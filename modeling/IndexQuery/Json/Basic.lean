/-
# JSON values

A JSON value keeps the kind of each number and holds the members of an object in the order of
their names, each name once.  The order is not part of the type: whatever builds an object builds
it with `Json.ofMembers`.
-/
import IndexQuery.NameMap
import IndexQuery.Number.Basic

namespace IndexQuery

/-- A JSON value. -/
inductive Json where
  | null
  | bool (b : Bool)
  | num (n : Number)
  | str (s : String)
  | arr (items : List Json)
  | obj (members : List (String × Json))

namespace Json

/-- An object with its members put in order, the last one of a name holding. -/
def ofMembers (members : List (String × Json)) : Json :=
  .obj (members.foldl (fun acc m => insertNamed m.1 m.2 acc) [])

/-- The value of a member, if the value is an object with that member. -/
def member? (key : String) : Json → Option Json
  | .obj members => findNamed? key members
  | _ => none

/-- The text of a string. -/
def str? : Json → Option String
  | .str s => some s
  | _ => none

/-- The items of an array. -/
def items? : Json → Option (List Json)
  | .arr items => some items
  | _ => none

/-- A natural number of 64 bits. -/
def uint64? : Json → Option UInt64
  | .num n => n.toUInt64?
  | _ => none

/-- Any number, as binary64. -/
def binary64? : Json → Option Binary64
  | .num n => some n.toBinary64
  | _ => none

/-- A natural number as a value. -/
def ofUInt64 (n : UInt64) : Json :=
  .num (.whole n)

/-- An array of strings. -/
def ofStrings (ss : List String) : Json :=
  .arr (ss.map .str)

/-- The strings of an array that holds nothing else. -/
def strings? : List Json → Option (List String)
  | [] => some []
  | .str s :: rest => (strings? rest).map (s :: ·)
  | _ :: _ => none

end Json

end IndexQuery
