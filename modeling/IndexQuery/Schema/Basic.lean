/-
# Index schemas

A schema names an index and says of each of its fields what kind of clause matches it, what type
its values have and whether it may be searched at all.  A field of the kind `indexed` has no clause
of its own: its values decide (`FieldSpec.resolved`).

A schema is an `IndexSchema`, a field its `FieldMetadata` with `resolved_kind` as `FieldSpec.resolved`, and
`Schema.fault?` is `validate_structure`.
-/
import IndexQuery.NameMap
import IndexQuery.Text.Blank

namespace IndexQuery

/-- How the engine indexes a field. -/
inductive FieldKind where
  | tag | text | numeric | geo | indexed
  deriving DecidableEq

namespace FieldKind

/-- The name in a schema. -/
def name : FieldKind → String
  | tag => "tag"
  | text => "text"
  | numeric => "numeric"
  | geo => "geo"
  | indexed => "indexed"

/-- The name in messages. -/
def title : FieldKind → String
  | tag => "TAG"
  | text => "TEXT"
  | numeric => "NUMERIC"
  | geo => "GEO"
  | indexed => "INDEXED"

/-- The kind of a name. -/
def ofName? : String → Option FieldKind
  | "tag" => some tag
  | "text" => some text
  | "numeric" => some numeric
  | "geo" => some geo
  | "indexed" => some indexed
  | _ => none

@[simp] theorem ofName?_name (k : FieldKind) : ofName? k.name = some k := by
  cases k <;> rfl

end FieldKind

/-- The type of a field's values. -/
inductive ValueType where
  | string | int | float | bool | geo | array | object
  deriving DecidableEq

namespace ValueType

/-- The name in a schema. -/
def name : ValueType → String
  | string => "string"
  | int => "int"
  | float => "float"
  | bool => "bool"
  | geo => "geo"
  | array => "array"
  | object => "object"

/-- The type of a name. -/
def ofName? : String → Option ValueType
  | "string" => some string
  | "int" => some int
  | "float" => some float
  | "bool" => some bool
  | "geo" => some geo
  | "array" => some array
  | "object" => some object
  | _ => none

/-- A type of numbers. -/
def isNumeric : ValueType → Bool
  | int | float => true
  | _ => false

@[simp] theorem ofName?_name (t : ValueType) : ofName? t.name = some t := by
  cases t <;> rfl

end ValueType

/-- What a schema says of one field. -/
structure FieldSpec where
  kind : FieldKind
  valueType : ValueType := .string
  searchable : Bool := true
  deriving DecidableEq

namespace FieldSpec

/-- A tag field of strings. -/
def tag : FieldSpec := { kind := .tag }

/-- A text field of strings. -/
def text : FieldSpec := { kind := .text }

/-- A numeric field of floats. -/
def numeric : FieldSpec := { kind := .numeric, valueType := .float }

/-- A geo field of positions. -/
def geo : FieldSpec := { kind := .geo, valueType := .geo }

/-- A field whose values decide on its kind. -/
def indexed (valueType : ValueType) : FieldSpec := { kind := .indexed, valueType }

/-- The field, not to be searched. -/
def hidden (f : FieldSpec) : FieldSpec := { f with searchable := false }

/-- The kind that decides on the clause of a field: an indexed field is numeric when its values are
numbers and a tag field otherwise. -/
def resolved (f : FieldSpec) : FieldKind :=
  match f.kind with
  | .indexed => if f.valueType.isNumeric then .numeric else .tag
  | kind => kind

theorem resolved_ne_indexed (f : FieldSpec) : f.resolved ≠ .indexed := by
  unfold resolved
  split
  · split <;> simp
  · assumption

end FieldSpec

/-- An index, if one is declared, and its fields by name. -/
structure Schema where
  indexName : Option String
  fields : NameMap FieldSpec
  deriving DecidableEq

/-- What makes a schema unusable. -/
inductive SchemaFault where
  | notJson
  | blankIndexName
  | blankFieldName (name : String)
  deriving DecidableEq

/-- The fault in words. -/
def SchemaFault.message : SchemaFault → String
  | notJson => "Invalid JSON:"
  | blankIndexName => "index_name must not be empty"
  | blankFieldName name => s!"Invalid field name '{name}'"

namespace Schema

/-- The schema of an index without fields. -/
def declare (indexName : Option String) : Schema :=
  ⟨indexName, .empty⟩

/-- The schema with one more field, or another one under the same name. -/
def withField (s : Schema) (name : String) (spec : FieldSpec) : Schema :=
  { s with fields := s.fields.insert name spec }

/-- What the schema says of a field. -/
def field? (s : Schema) (name : String) : Option FieldSpec :=
  s.fields.find? name

/-- The first fault of a schema: a blank index name, then the least blank field name. -/
def fault? (s : Schema) : Option SchemaFault :=
  if s.indexName.any isBlankText then some .blankIndexName
  else (s.fields.names.find? isBlankText).map .blankFieldName

end Schema

end IndexQuery
