/-
# Plans in JSON

The JSON form of a plan has its parts by name and leaves out those that are absent.

The members are those of `QueryDescriptor` and `AggregationDescriptor` as they are serialised.
-/
import IndexQuery.Plan.Aggregate

namespace IndexQuery

/-- The member of a part that may be absent. -/
def optionalMember {α : Type} (key : String) (toJson : α → Json) :
    Option α → List (String × Json)
  | none => []
  | some a => [(key, toJson a)]

/-- The members of a sort key. -/
def SortKey.members (k : SortKey) : List (String × Json) :=
  [("direction", .str k.direction.name), ("field", .str k.field)]

/-- The JSON form of a sort key. -/
def SortKey.toJson (k : SortKey) : Json :=
  .obj k.members

/-- The JSON form of a window. -/
def Window.toJson (w : Window) : Json :=
  .obj [("count", Json.ofUInt64 w.count), ("offset", Json.ofUInt64 w.offset)]

/-- The JSON form of a radius. -/
def GeoRadius.toJson (r : GeoRadius) : Json :=
  .obj [("field", .str r.field), ("latitude", .num (.float r.latitude)),
    ("longitude", .num (.float r.longitude)), ("radius", .num (.float r.radius)),
    ("unit", .str r.unit.name)]

/-- The JSON form of a search plan. -/
def SearchPlan.toJson (p : SearchPlan) : Json :=
  .obj (optionalMember "geo_filter" GeoRadius.toJson p.geo
    ++ [("index_name", .str p.indexName)]
    ++ optionalMember "limit" Window.toJson p.window
    ++ [("query_text", .str p.queryText)]
    ++ optionalMember "return_fields" Json.ofStrings p.returnFields
    ++ optionalMember "sort_by" SortKey.toJson p.sortBy)

/-- The JSON form of a reduction's arguments. -/
def ReductionArgs.toJson : ReductionArgs → Json
  | none => .obj [("arity", .str "zero")]
  | field name => .obj [("arity", .str "one"), ("field", .str name)]
  | parameter name value =>
    .obj [("arity", .str "two"), ("field", .str name), ("parameter", .num value)]
  | first name order =>
    .obj ([("arity", .str "first_value"), ("field", .str name)]
      ++ optionalMember "sort_by" SortKey.toJson order)

/-- The JSON form of a step. -/
def Step.toJson : Step → Json
  | groupBy fields => .obj [("fields", Json.ofStrings fields), ("stage", .str "group_by")]
  | reduce r =>
    .obj [("alias", .str r.label), ("args", r.args.toJson), ("function", .str r.function.name),
      ("stage", .str "reduction")]
  | sortBy key => .obj (key.members ++ [("stage", .str "sort_by")])
  | apply expr label =>
    .obj [("alias", .str label), ("expr", .str expr), ("stage", .str "apply")]
  | filter expr => .obj [("expr", .str expr), ("stage", .str "filter")]

/-- The JSON form of an aggregation plan. -/
def AggregatePlan.toJson (p : AggregatePlan) : Json :=
  .obj ([("index_name", .str p.indexName)]
    ++ optionalMember "limit" Window.toJson p.window
    ++ optionalMember "query_predicate" Json.str p.queryText
    ++ [("stages", .arr (p.steps.map Step.toJson))])

end IndexQuery
