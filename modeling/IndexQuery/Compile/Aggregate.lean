/-
# Compiling an aggregation

The stages of an aggregation chain are taken from the inside out, in the order in which the engine
runs them.  Each is compiled on its own (`AggregatePart.ofStage`) and then added to a stack of steps
(`AggregateDraft.add`); the innermost error is the one reported.

Two rules look at the top of the stack: a group on top of a group is one group, the new keys first,
and a reduction that follows neither a group nor a reduction of a field alone gets a group of all
rows right after it.

The innermost stage may be a `Where`, which narrows the rows before the pipeline and is a predicate
of the query language; everywhere else a `Where` is a filter step of the value language.  A stage
with a name outside the table is passed over, which the session takes note of.

The functions are those of `PipelineCompiler`: `AggregateDraft.run` is its `build`, `Step.pushGroup` and
`Step.pushReduction` are `push_group_by` and `push_reduction` of its stack, and the reductions that take more
than a field are `two_arg_reduction`, `check_parameter` and `first_value`.
-/
import IndexQuery.Expr.Stage
import IndexQuery.Filter.OfExpr
import IndexQuery.Plan.Aggregate
import IndexQuery.Session
import IndexQuery.Settings
import IndexQuery.Term.Basic

namespace IndexQuery

/-! ## 1. The stack of steps -/

namespace Step

/-- A group on the stack, joined with a group that is on top. -/
def pushGroup (fields : List String) : List Step → List Step
  | groupBy existing :: rest => groupBy (fields ++ existing) :: rest
  | stack => groupBy fields :: stack

/-- Whether a reduction on top of the stack has a group already. -/
def isGrouped : List Step → Bool
  | groupBy _ :: _ => true
  | reduce previous :: _ => previous.isFieldOnly
  | _ => false

/-- A reduction on the stack, with a group of all rows after it if it has none. -/
def pushReduction (r : Reduction) (stack : List Step) : List Step :=
  if isGrouped stack then reduce r :: stack else groupBy [] :: reduce r :: stack

end Step

/-! ## 2. Reductions -/

namespace Reduction

/-- The reductions of a field without anything more, by stage name. -/
def fieldOnly? : String → Option ReduceFunction
  | "Average" => some .avg
  | "StandardDeviation" => some .stddev
  | "Sum" => some .sum
  | "Min" => some .min
  | "Max" => some .max
  | "CountDistinct" => some .countDistinct
  | "CountDistinctish" => some .countDistinctish
  | "Distinct" => some .toList
  | _ => none

/-- A constant argument that is a number. -/
def numberArg (stage : Stage) (i : Nat) : Compiled Number := do
  match ← (← stage.arg i).constantOperand with
  | .num n => return n
  | _ => .error (.invalidArgument stage.name .notNumber)

/-- A quantile of a field, between zero and one. -/
def quantile (stage : Stage) : Compiled Reduction := do
  let field ← (← stage.arg 0).resolveField
  let q ← numberArg stage 1
  if q.toBinary64.isUnitInterval then return named .quantile (.parameter field q)
  else .error (.invalidArgument stage.name .quantileRange)

/-- A sample of a field, of at least one row. -/
def randomSample (stage : Stage) : Compiled Reduction := do
  let field ← (← stage.arg 0).resolveField
  let n ← numberArg stage 1
  if n.toUInt64?.any (0 < ·) then return named .randomSample (.parameter field n)
  else .error (.invalidArgument stage.name .sampleSize)

/-- The direction that a constant names: a truth value says whether it is descending. -/
def direction? : Json → Option Direction
  | .bool true => some .desc
  | .bool false => some .asc
  | .str s =>
    match lowerText s with
    | "desc" => some .desc
    | "asc" => some .asc
    | _ => none
  | _ => none

/-- The direction at an argument, ascending if there is none. -/
def directionArg (stage : Stage) (i : Nat) : Compiled Direction :=
  match stage.args[i]? with
  | none => .ok .asc
  | some e => do
    let value ← e.constantOperand
    match direction? value with
    | some direction => .ok direction
    | none => .error (.invalidArgument stage.name (.unknownDirection value.text))

/-- The first value of a field, by the order of a second field if one is given. -/
def firstValue (stage : Stage) : Compiled Reduction := do
  let field ← (← stage.arg 0).resolveField
  match stage.args[1]? with
  | none => return named .firstValue (.first field none)
  | some key =>
    let direction ← directionArg stage 2
    let key ← key.resolveField
    return named .firstValue (.first field (some ⟨key, direction⟩))

end Reduction

/-! ## 3. Stages -/

/-- What one stage asks for. -/
inductive AggregatePart where
  | narrow (queryText : String)
  | filter (expr : String)
  | take (count : UInt64)
  | skip (offset : UInt64)
  | reduce (r : Reduction)
  | sort (key : SortKey)
  | group (fields : List String)
  | apply (expr label : String)
  deriving DecidableEq

namespace AggregatePart

/-- A filter of the value language. -/
def filterOf (stage : Stage) : Compiled AggregatePart := do
  let text ← valueText (← stage.arg 0).peel
  return filter text

/-- What a stage asks for, by its name; nothing if the stage is passed over. -/
def ofStage (schema : Schema) (innermost : Bool) (stage : Stage) :
    Compiled (Option AggregatePart) :=
  match stage.name with
  | "Where" =>
    if innermost then do
      let text ← filterText schema (← stage.arg 0)
      return narrow text
    else (filterOf stage).map some
  | "Filter" => (filterOf stage).map some
  | "First" | "FirstOrDefault" => return take 1
  | "Take" => (stage.countArg 0).map fun n => take n
  | "Skip" => (stage.countArg 0).map fun n => skip n
  | "Count" | "LongCount" => return reduce (.named .count .none)
  | "Quantile" => (Reduction.quantile stage).map fun r => reduce r
  | "RandomSample" => (Reduction.randomSample stage).map fun r => reduce r
  | "FirstValue" => (Reduction.firstValue stage).map fun r => reduce r
  | "OrderBy" => do
    let field ← (← stage.arg 0).resolveField
    return sort ⟨field, .asc⟩
  | "OrderByDescending" => do
    let field ← (← stage.arg 0).resolveField
    return sort ⟨field, .desc⟩
  | "GroupBy" => do
    let fields ← (← stage.arg 0).resolveFields
    return group fields
  | "Apply" => do
    let text ← valueText (← stage.arg 0).peel
    let label ← (← stage.arg 1).resolveField
    return apply text label
  | name =>
    match Reduction.fieldOnly? name with
    | some function => do
      let field ← (← stage.arg 0).resolveField
      return reduce (.named function (.field field))
    | none => return none

end AggregatePart

/-! ## 4. The plan -/

/-- What the stages taken so far ask for; the last step is on top. -/
structure AggregateDraft where
  queryText : Option String := none
  window : Option Window := none
  stack : List Step := []
  deriving DecidableEq

namespace AggregateDraft

/-- The draft after one more stage. -/
def add (settings : Settings) (d : AggregateDraft) : AggregatePart → AggregateDraft
  | .narrow text => { d with queryText := some text }
  | .filter text => { d with stack := .filter text :: d.stack }
  | .take count => { d with window := some (Window.take settings count d.window) }
  | .skip offset => { d with window := some (Window.skip settings offset d.window) }
  | .reduce r => { d with stack := Step.pushReduction r d.stack }
  | .sort key => { d with stack := .sortBy key :: d.stack }
  | .group fields => { d with stack := Step.pushGroup fields d.stack }
  | .apply text label => { d with stack := .apply text label :: d.stack }

/-- The draft after stages, innermost first; the session notes the ones passed over. -/
def run (schema : Schema) (settings : Settings) :
    Bool → List Stage → AggregateDraft → Session → Compiled AggregateDraft × Session
  | _, [], d, s => (.ok d, s)
  | innermost, stage :: rest, d, s =>
    match AggregatePart.ofStage schema innermost stage with
    | .error e => (.error e, s)
    | .ok (some part) => run schema settings false rest (d.add settings part) s
    | .ok none => run schema settings false rest d (s.skip stage.name)

/-- The plan of a draft. -/
def plan (indexName : String) (d : AggregateDraft) : AggregatePlan where
  indexName := indexName
  queryText := d.queryText
  window := d.window
  steps := d.stack.reverse

end AggregateDraft

/-- Compiles an aggregation in a session. -/
def compileAggregate (schema : Schema) (settings : Settings) (e : Expr) (s : Session) :
    Compiled AggregatePlan × Session :=
  observed "COMPILE_AGGREGATION" .aggregationsCompiled
    (fun p => [("stages", Nat.repr p.steps.length)]) schema.indexName
    (fun index s =>
      let (draft, s) := AggregateDraft.run schema settings true e.stages.reverse {} s
      (draft.map (AggregateDraft.plan index), s)) s

end IndexQuery
