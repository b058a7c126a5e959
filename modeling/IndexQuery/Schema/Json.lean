/-
# Schemas in JSON

A schema is read straight from a document (`Schema.ofDocument?`): a record of the index name and the
fields, each field a record of its kind, the type of its values and whether it may be searched.  A
record may be an object or the array of its fields.  Every part but a field's kind has a default.

`Schema.parse` is the reader of a schema text: the document, then the faults of `Schema.fault?`.

The forms are those in which `IndexSchema` and `FieldMetadata` are serialised.
-/
import IndexQuery.Json.Reader
import IndexQuery.Schema.Basic

namespace IndexQuery

namespace FieldSpec

/-- A field of a schema. -/
def ofDocument? (d : Document) : Option FieldSpec :=
  match d.record? ["kind", "value_type", "searchable"] with
  | some [some kind, valueType, searchable] => do
    let kind ← kind.variant?.bind FieldKind.ofName?
    let valueType ←
      Document.orDefault (fun d => d.variant?.bind ValueType.ofName?) .string valueType
    let searchable ← Document.orDefault Document.bool? true searchable
    return { kind, valueType, searchable }
  | _ => none

/-- The JSON form of a field. -/
def toJson (f : FieldSpec) : Json :=
  .obj [("kind", .str f.kind.name), ("searchable", .bool f.searchable),
    ("value_type", .str f.valueType.name)]

end FieldSpec

namespace Schema

/-- The index name: null stands for none. -/
def indexNameOf? : Document → Option (Option String)
  | .null => some none
  | d => d.str?.map some

/-- The fields by name, the last one of a name holding. -/
def fieldsOf? : Document → Option (NameMap FieldSpec)
  | .obj members => do
    let named ← Document.named? members
    let specs ← named.mapM fun m => (FieldSpec.ofDocument? m.2).map fun spec => (m.1, spec)
    return NameMap.ofList specs
  | _ => none

/-- The schema a document describes. -/
def ofDocument? (d : Document) : Option Schema :=
  match d.record? ["index_name", "fields"] with
  | some [indexName, fields] => do
    let indexName ← Document.orDefault indexNameOf? none indexName
    let fields ← Document.orDefault fieldsOf? .empty fields
    return ⟨indexName, fields⟩
  | _ => none

/-- The JSON form of a schema. -/
def toJson (s : Schema) : Json :=
  .obj [("fields", .obj (s.fields.entries.map fun e => (e.1, e.2.toJson))),
    ("index_name", (s.indexName.map Json.str).getD .null)]

/-- The schema of a text, or what is wrong with it. -/
def parse (text : String) : Except SchemaFault Schema :=
  match (Document.parse? text).bind ofDocument? with
  | none => .error .notJson
  | some s =>
    match s.fault? with
    | none => .ok s
    | some fault => .error fault

end Schema

end IndexQuery
