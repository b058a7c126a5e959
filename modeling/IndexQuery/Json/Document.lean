/-
# Documents: JSON as it is written

A document is what the JSON grammar alone makes of a text.  Members stand in written order, a
name may come twice, and two leaves of the grammar may have no value: a numeral beyond the largest
number and a string with half of a surrogate pair.

The two kinds of reader differ in what they ask of a document.  A request is read as a value
(`Document.value?`): every leaf must have one, arrays and objects nest at most 127 deep, and of two
members of one name the last holds.  A schema or a configuration is read by its expected members,
and a member that is not expected need only be well formed.
-/
import IndexQuery.Json.Basic

namespace IndexQuery

/-- A JSON text by its grammar. -/
inductive Document where
  | null
  | bool (b : Bool)
  | num (n : Option Number)
  | str (s : Option String)
  | arr (items : List Document)
  | obj (members : List (Option String × Document))

namespace Document

/-- The deepest nesting of arrays and objects that a value may have. -/
def maxDepth : Nat := 127

mutual

/-- How deep arrays and objects nest. -/
def depth : Document → Nat
  | .arr items => itemsDepth items + 1
  | .obj members => membersDepth members + 1
  | _ => 0
termination_by structural d => d

/-- The depth of the deepest item. -/
def itemsDepth : List Document → Nat
  | [] => 0
  | item :: rest => max item.depth (itemsDepth rest)
termination_by structural items => items

/-- The depth of the deepest member. -/
def membersDepth : List (Option String × Document) → Nat
  | [] => 0
  | (_, value) :: rest => max value.depth (membersDepth rest)
termination_by structural members => members

end

mutual

/-- The JSON value of a document whose leaves all have one. -/
def toJson? : Document → Option Json
  | .null => some .null
  | .bool b => some (.bool b)
  | .num n => n.map .num
  | .str s => s.map .str
  | .arr items => (toItems? items).map .arr
  | .obj members => (toMembers? members).map Json.ofMembers
termination_by structural d => d

/-- The values of all items. -/
def toItems? : List Document → Option (List Json)
  | [] => some []
  | item :: rest =>
    match item.toJson?, toItems? rest with
    | some value, some values => some (value :: values)
    | _, _ => none
termination_by structural items => items

/-- The names and values of all members, in written order. -/
def toMembers? : List (Option String × Document) → Option (List (String × Json))
  | [] => some []
  | (key, value) :: rest =>
    match key, value.toJson?, toMembers? rest with
    | some key, some value, some values => some ((key, value) :: values)
    | _, _, _ => none
termination_by structural members => members

end

/-- The value of a request. -/
def value? (d : Document) : Option Json :=
  if d.depth ≤ maxDepth then d.toJson? else none

mutual

/-- A value as a document: every leaf has its value and every name comes once. -/
def ofJson : Json → Document
  | .null => .null
  | .bool b => .bool b
  | .num n => .num (some n)
  | .str s => .str (some s)
  | .arr items => .arr (ofItems items)
  | .obj members => .obj (ofMembers members)
termination_by structural j => j

/-- Each item as a document. -/
def ofItems : List Json → List Document
  | [] => []
  | item :: rest => ofJson item :: ofItems rest
termination_by structural items => items

/-- Each member with its value as a document. -/
def ofMembers : List (String × Json) → List (Option String × Document)
  | [] => []
  | (key, value) :: rest => (some key, ofJson value) :: ofMembers rest
termination_by structural members => members

end

/-! ## Reading by expected members

The readers below take a document apart the way a record or an enumeration is written. -/

/-- The text of a string. -/
def str? : Document → Option String
  | .str s => s
  | _ => none

/-- A truth value. -/
def bool? : Document → Option Bool
  | .bool b => some b
  | _ => none

/-- A natural number of 64 bits. -/
def uint64? : Document → Option UInt64
  | .num (some n) => n.toUInt64?
  | _ => none

/-- What is written for an optional part, or its default. -/
def orDefault {α : Type} (read? : Document → Option α) (default : α) :
    Option Document → Option α
  | none => some default
  | some d => read? d

/-- The name of an enumeration's value: a string, or an object with that one name and null. -/
def variant? : Document → Option String
  | .str s => s
  | .obj [(name, .null)] => name
  | _ => none

/-- The members of an object with their names; none if a name has no value. -/
def named? : List (Option String × Document) → Option (List (String × Document))
  | [] => some []
  | (key, value) :: rest =>
    match key, named? rest with
    | some key, some members => some ((key, value) :: members)
    | _, _ => none

/-- A document as a record with the given field names: either an object, where an expected field
comes at most once and other members do not matter, or an array of the fields in their order,
where fields may be left off at the end.  The result lists what is written for each field. -/
def record? (names : List String) : Document → Option (List (Option Document))
  | .obj members =>
    match named? members with
    | some members =>
      if names.all fun name => members.countP (·.1 == name) ≤ 1 then
        some (names.map fun name => findNamed? name members)
      else none
    | none => none
  | .arr items =>
    if items.length ≤ names.length then
      some ((List.range names.length).map fun i => items[i]?)
    else none
  | _ => none

end Document

end IndexQuery
