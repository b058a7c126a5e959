/-
# Explanations

An explanation lists what a compile came to: the parts of an accepted plan with its argument
vector, or the reason of a rejection.

`Explanation` is `Explain` with its `from_query`, `from_aggregation` and `from_error`; `Step.describe` is
`describe_stage`.
-/
import IndexQuery.Error
import IndexQuery.Plan.Aggregate

namespace IndexQuery

/-- The parts of an accepted plan, in words. -/
structure AcceptedParts where
  command : String
  index : String
  query : String
  sort : Option String := none
  returnFields : List String := []
  window : Option String := none
  geo : Option String := none
  steps : List String := []
  args : List String
  deriving DecidableEq

/-- What a compile came to. -/
inductive Explanation where
  | accepted (parts : AcceptedParts)
  | rejected (error : CompileError)
  deriving DecidableEq

/-! ## 1. Parts in words -/

/-- A sort key in words. -/
def SortKey.describe (k : SortKey) : String :=
  k.field ++ " " ++ k.direction.name

/-- A window in words. -/
def Window.describe (w : Window) : String :=
  s!"offset {w.offset.toNat} count {w.count.toNat}"

/-- A radius in words. -/
def GeoRadius.describe (r : GeoRadius) : String :=
  r.field ++ " within " ++ r.radius.plainText ++ " " ++ r.unit.name ++ " of ("
    ++ r.longitude.plainText ++ ", " ++ r.latitude.plainText ++ ")"

/-- What a reduction is about, in words. -/
def ReductionArgs.describe : ReductionArgs → String
  | none => ""
  | field name => name
  | parameter name value => name ++ ", " ++ value.text
  | first name .none => name
  | first name (some key) => name ++ " BY " ++ key.describe

/-- A step in words. -/
def Step.describe : Step → String
  | groupBy [] => "GROUP BY (all rows)"
  | groupBy fields => "GROUP BY " ++ ", ".intercalate fields
  | reduce r => "REDUCE " ++ r.function.name ++ "(" ++ r.args.describe ++ ") AS " ++ r.label
  | sortBy key => "SORT BY " ++ key.describe
  | apply expr label => "APPLY " ++ expr ++ " AS " ++ label
  | filter expr => "FILTER " ++ expr

/-! ## 2. Explanations of plans -/

namespace Explanation

/-- The explanation of a search plan. -/
def ofSearch (p : SearchPlan) : Explanation :=
  accepted {
    command := "SEARCH"
    index := p.indexName
    query := p.queryText
    sort := p.sortBy.map SortKey.describe
    returnFields := p.returnFields.getD []
    window := p.window.map Window.describe
    geo := p.geo.map GeoRadius.describe
    args := p.args }

/-- The explanation of an aggregation plan. -/
def ofAggregate (p : AggregatePlan) : Explanation :=
  accepted {
    command := "AGGREGATE"
    index := p.indexName
    query := p.queryText.getD "*"
    window := p.window.map Window.describe
    steps := p.steps.map Step.describe
    args := p.args }

/-- The explanation of a compile. -/
def ofResult {α : Type} (accept : α → Explanation) : Compiled α → Explanation
  | .ok a => accept a
  | .error e => rejected e

/-! ## 3. The text -/

/-- A line with a title. -/
def titled (title text : String) : String :=
  title ++ ": " ++ text ++ "\n"

/-- A line for a part that may be absent. -/
def optionalLine (title : String) : Option String → String
  | none => ""
  | some text => titled title text

/-- A line for a list that may be empty. -/
def listLine (title separator : String) : List String → String
  | [] => ""
  | items => titled title (separator.intercalate items)

/-- The steps, numbered from one. -/
def stepLines : List String → String
  | [] => ""
  | steps => "Stages:\n" ++ "".intercalate
      ((steps.zipIdx 1).map fun (step, i) => s!"  {i}. {step}\n")

/-- The text of an explanation. -/
def text : Explanation → String
  | accepted p =>
    "=== EXPLAIN ===\nStatus: ACCEPTED\n" ++ titled "Command" p.command ++ titled "Index" p.index
      ++ titled "Query" p.query ++ stepLines p.steps ++ optionalLine "Sort" p.sort
      ++ listLine "Return" ", " p.returnFields ++ optionalLine "Geo" p.geo
      ++ optionalLine "Limit" p.window ++ listLine "Args" " " p.args
  | rejected e =>
    "=== EXPLAIN ===\nStatus: REJECTED\n" ++ titled "Error Code" e.code
      ++ optionalLine "Field" e.field? ++ titled "Reason" e.message

end Explanation

end IndexQuery
