/-
# Search plans

What a search chain compiles to: the index, the query text and, where the chain says so, the sort
key, the fields to return, the window and a radius.  `SearchPlan.args` is the argument vector of the
engine's search command.

A plan is a `QueryDescriptor`, `SearchPlan.args` its `to_args`, and `Window.args` is `push_limit`.
-/
import IndexQuery.Plan.Basic

namespace IndexQuery

/-- A compiled search. -/
structure SearchPlan where
  indexName : String
  queryText : String
  sortBy : Option SortKey := none
  returnFields : Option (List String) := none
  window : Option Window := none
  geo : Option GeoRadius := none
  deriving DecidableEq

/-- The window as arguments. -/
def Window.args (w : Window) : List String :=
  ["LIMIT", Nat.repr w.offset.toNat, Nat.repr w.count.toNat]

/-- The sort key of a search as arguments. -/
def SortKey.searchArgs (k : SortKey) : List String :=
  ["SORTBY", k.field, k.direction.name]

/-- The radius as arguments. -/
def GeoRadius.args (r : GeoRadius) : List String :=
  ["GEOFILTER", r.field, r.longitude.plainText, r.latitude.plainText, r.radius.plainText,
    r.unit.name]

/-- The fields to return as arguments, after how many there are. -/
def returnArgs (fields : List String) : List String :=
  "RETURN" :: Nat.repr fields.length :: fields

/-- The arguments of a part that may be absent. -/
def optionalArgs {α : Type} (args : α → List String) : Option α → List String
  | none => []
  | some a => args a

namespace SearchPlan

/-- The argument vector of a search. -/
def args (p : SearchPlan) : List String :=
  [p.indexName, p.queryText] ++ optionalArgs Window.args p.window
    ++ optionalArgs SortKey.searchArgs p.sortBy ++ optionalArgs returnArgs p.returnFields
    ++ optionalArgs GeoRadius.args p.geo

end SearchPlan

end IndexQuery
