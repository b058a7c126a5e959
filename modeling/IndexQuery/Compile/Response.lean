/-
# Answers to a request

A compile answers with the argument vector of its plan and the plan itself.  An explanation compiles
too, and its entries stay in the journal, but it is not counted.

`respond` is `search_response` and `aggregate_response`, and `explain` is `explain_text`.
-/
import IndexQuery.Compile.Aggregate
import IndexQuery.Compile.Search
import IndexQuery.Plan.Explain
import IndexQuery.Plan.Json

namespace IndexQuery

/-- Which compile an explanation is about. -/
inductive Mode where
  | search | aggregate
  deriving DecidableEq

/-- The mode of a name. -/
def Mode.ofName? : String → Option Mode
  | "search" => some search
  | "aggregate" => some aggregate
  | _ => none

/-- The answer of a compile. -/
structure Response where
  args : List String
  descriptor : Json

namespace Response

/-- The answer of a search plan. -/
def ofSearch (p : SearchPlan) : Response :=
  ⟨p.args, p.toJson⟩

/-- The answer of an aggregation plan. -/
def ofAggregate (p : AggregatePlan) : Response :=
  ⟨p.args, p.toJson⟩

/-- The JSON form of an answer. -/
def toJson (r : Response) : Json :=
  .obj [("args", Json.ofStrings r.args), ("descriptor", r.descriptor)]

end Response

/-- The answer to a request in a mode. -/
def respond (mode : Mode) (schema : Schema) (settings : Settings) (e : Expr) (s : Session) :
    Compiled Response × Session :=
  match mode with
  | .search =>
    let (result, s) := compileSearch schema settings e s
    (result.map Response.ofSearch, s)
  | .aggregate =>
    let (result, s) := compileAggregate schema settings e s
    (result.map Response.ofAggregate, s)

/-- The explanation of a request in a mode; it leaves the counters as they are. -/
def explain (mode : Mode) (schema : Schema) (settings : Settings) (e : Expr) (s : Session) :
    Explanation × Session :=
  match mode with
  | .search =>
    let (result, after) := compileSearch schema settings e s
    (.ofResult .ofSearch result, { after with counters := s.counters })
  | .aggregate =>
    let (result, after) := compileAggregate schema settings e s
    (.ofResult .ofAggregate result, { after with counters := s.counters })

end IndexQuery
