/-
# Compiling a search

The stages of a search chain are taken from the outside in, the one chained last first.  Each is
compiled on its own (`SearchPart.ofStage`), also one whose part is taken already, and a name outside
the table is an error; the outermost error is the one reported.

The parts are then put together (`SearchDraft.add`).  Of two sort keys the one met first holds, as
do of two selections and of two radii, while counts and offsets are overwritten by the ones further
in.  Filters are put in front of those found before, which leaves them in the order of the chain.

A single-row stage counts as a window of one row, whatever counts the chain has.

The functions are those of `QueryAssembler`: `SearchPart.ofStage` is one turn of the loop in its `build`,
`SearchDraft.plan` what follows the loop, and `compileSearch` its `compile`.
-/
import IndexQuery.Expr.Stage
import IndexQuery.Filter.OfExpr
import IndexQuery.Plan.Search
import IndexQuery.Session
import IndexQuery.Settings

namespace IndexQuery

/-! ## 1. Stages -/

/-- What one stage asks for. -/
inductive SearchPart where
  | filter (f : Filter)
  | sort (key : SortKey)
  | select (fields : List String)
  | take (count : UInt64)
  | skip (offset : UInt64)
  | single (filter : Option Filter)
  | near (radius : GeoRadius)
  deriving DecidableEq

/-- What a stage asks for, by its name. -/
def SearchPart.ofStage (schema : Schema) (stage : Stage) : Compiled SearchPart :=
  match stage.name with
  | "Where" => do
    let f ← Filter.ofExpr schema (← stage.arg 0)
    return filter f
  | "OrderBy" => do
    let field ← (← stage.arg 0).resolveField
    return sort ⟨field, .asc⟩
  | "OrderByDescending" => do
    let field ← (← stage.arg 0).resolveField
    return sort ⟨field, .desc⟩
  | "Select" => do
    let fields ← (← stage.arg 0).projection
    return select fields
  | "Take" => (stage.countArg 0).map take
  | "Skip" => (stage.countArg 0).map skip
  | "First" | "FirstOrDefault" | "Any" =>
    match stage.args with
    | [] => return single none
    | predicate :: _ => do
      let f ← Filter.ofExpr schema predicate
      return single (some f)
  | "GeoFilter" => (Filter.geoRadius schema stage.args).map near
  | name => .error (.unsupportedOperator name)

/-! ## 2. The plan -/

/-- What the stages taken so far ask for. -/
structure SearchDraft where
  filters : List Filter := []
  single : Bool := false
  sortBy : Option SortKey := none
  returnFields : Option (List String) := none
  window : Option Window := none
  geo : Option GeoRadius := none
  deriving DecidableEq

namespace SearchDraft

/-- The draft after one more stage. -/
def add (settings : Settings) (d : SearchDraft) : SearchPart → SearchDraft
  | .filter f => { d with filters := f :: d.filters }
  | .sort key => { d with sortBy := d.sortBy.or (some key) }
  | .select fields => { d with returnFields := d.returnFields.or (some fields) }
  | .take count => { d with window := some (Window.take settings count d.window) }
  | .skip offset => { d with window := some (Window.skip settings offset d.window) }
  | .single filter => { d with single := true, filters := filter.toList ++ d.filters }
  | .near radius => { d with geo := d.geo.or (some radius) }

/-- The draft of an expression: a filter in a lambda, or a chain of stages. -/
def ofExpr (schema : Schema) (settings : Settings) : Expr → Compiled SearchDraft
  | .lambda body => do
    let f ← Filter.ofExpr schema body
    return { filters := [f] }
  | e => do
    let parts ← e.stages.mapM (SearchPart.ofStage schema)
    return parts.foldl (add settings) {}

/-- The query text of all filters: everything, the only one, or all of them in parentheses. -/
def queryText : List Filter → String
  | [] => "*"
  | [f] => f.text
  | fs => "(" ++ " ".intercalate (fs.map Filter.text) ++ ")"

/-- The plan of a draft. -/
def plan (settings : Settings) (indexName : String) (d : SearchDraft) : SearchPlan where
  indexName := indexName
  queryText := queryText d.filters
  sortBy := d.sortBy
  returnFields := d.returnFields
  window := if d.single then some (Window.take settings 1 d.window) else d.window
  geo := d.geo

end SearchDraft

/-- The search plan of an expression on an index. -/
def SearchPlan.ofExpr (schema : Schema) (settings : Settings) (indexName : String) (e : Expr) :
    Compiled SearchPlan :=
  (SearchDraft.ofExpr schema settings e).map (SearchDraft.plan settings indexName)

/-- Compiles a search in a session. -/
def compileSearch (schema : Schema) (settings : Settings) (e : Expr) (s : Session) :
    Compiled SearchPlan × Session :=
  observed "COMPILE_QUERY" .queriesCompiled (fun p => [("query", p.queryText)]) schema.indexName
    (fun index s => (SearchPlan.ofExpr schema settings index e, s)) s

end IndexQuery
