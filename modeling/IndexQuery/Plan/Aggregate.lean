/-
# Aggregation plans

What an aggregation chain compiles to: the index, a query that narrows the rows, a window, and the
steps of the pipeline in the order in which the engine runs them.

In the argument vector a reduction belongs to a group.  `clauses` puts the two together in one walk
over the steps, holding back the group that may still grow (`Pending`): a group takes the reductions
that follow it, reductions without a group before them take the group right after them, or a group
of all rows of their own.  A group of all rows that is left without reductions, because the group
before took them, is not written.

A plan is an `AggregationDescriptor` and `AggregatePlan.args` its `to_args`; `take_reductions`, `push_group`
and `reduction_args` are `Pending.reduce`, `Pending.flush` and `ReductionArgs.args`.
-/
import IndexQuery.Plan.Search

namespace IndexQuery

/-- The reduce functions of the engine. -/
inductive ReduceFunction where
  | count | countDistinct | countDistinctish | sum | min | max | avg | stddev | quantile | toList
  | firstValue | randomSample
  deriving DecidableEq

namespace ReduceFunction

/-- The function as the engine writes it. -/
def name : ReduceFunction → String
  | count => "COUNT"
  | countDistinct => "COUNT_DISTINCT"
  | countDistinctish => "COUNT_DISTINCTISH"
  | sum => "SUM"
  | min => "MIN"
  | max => "MAX"
  | avg => "AVG"
  | stddev => "STDDEV"
  | quantile => "QUANTILE"
  | toList => "TOLIST"
  | firstValue => "FIRST_VALUE"
  | randomSample => "RANDOM_SAMPLE"

/-- All functions. -/
def all : List ReduceFunction :=
  [count, countDistinct, countDistinctish, sum, min, max, avg, stddev, quantile, toList,
   firstValue, randomSample]

/-- The function of a name. -/
def ofName? (name : String) : Option ReduceFunction :=
  all.find? (·.name == name)

end ReduceFunction

/-- The arguments of a reduction. -/
inductive ReductionArgs where
  | none
  | field (name : String)
  | parameter (name : String) (value : Number)
  | first (name : String) (order : Option SortKey)
  deriving DecidableEq

namespace ReductionArgs

/-- The field that is reduced. -/
def field? : ReductionArgs → Option String
  | none => .none
  | field name | parameter name _ | first name _ => some name

/-- The arguments as the engine takes them. -/
def args : ReductionArgs → List String
  | none => []
  | field name => ["@" ++ name]
  | parameter name value => ["@" ++ name, value.text]
  | first name .none => ["@" ++ name]
  | first name (some key) => ["@" ++ name, "BY", "@" ++ key.field, key.direction.name]

end ReductionArgs

/-- A reduction of the rows of a group to one value, under a name. -/
structure Reduction where
  function : ReduceFunction
  args : ReductionArgs
  label : String
  deriving DecidableEq

namespace Reduction

/-- A reduction under its default name: the field and the function, or the function alone. -/
def named (function : ReduceFunction) (args : ReductionArgs) : Reduction :=
  { function, args
    label := match args.field? with
      | some field => field ++ "_" ++ function.name
      | none => function.name }

/-- A reduction of a field without anything more. -/
def isFieldOnly (r : Reduction) : Bool :=
  match r.args with
  | .field _ => true
  | _ => false

/-- A reduction as arguments: function, how many arguments, the arguments, the name. -/
def clauseArgs (r : Reduction) : List String :=
  "REDUCE" :: r.function.name :: Nat.repr r.args.args.length :: r.args.args ++ ["AS", r.label]

end Reduction

/-- A step of an aggregation. -/
inductive Step where
  | groupBy (fields : List String)
  | reduce (r : Reduction)
  | sortBy (key : SortKey)
  | apply (expr label : String)
  | filter (expr : String)
  deriving DecidableEq

/-- A compiled aggregation. -/
structure AggregatePlan where
  indexName : String
  queryText : Option String := none
  window : Option Window := none
  steps : List Step := []
  deriving DecidableEq

/-! ## 1. Groups and their reductions -/

/-- A clause of the argument vector: a group with its reductions, or a step on its own. -/
inductive PipelineClause where
  | group (fields : List String) (reductions : List Reduction)
  | sort (key : SortKey)
  | apply (expr label : String)
  | filter (expr : String)
  deriving DecidableEq

/-- What the walk holds back: nothing, reductions without a group so far, or a group that may take
more reductions.  `reduced` says that the group written last has reductions and that no other clause
came after it. -/
inductive Pending where
  | none (reduced : Bool)
  | loose (reductions : List Reduction)
  | group (reduced : Bool) (fields : List String) (reductions : List Reduction)
  deriving DecidableEq

namespace Pending

/-- A group of all rows without reductions, after a group that has some. -/
def isVoid : Pending → Bool
  | group reduced fields reductions => fields.isEmpty && reductions.isEmpty && reduced
  | _ => false

/-- The clause that is written for what was held back. -/
def flush : Pending → List PipelineClause
  | none _ => []
  | loose reductions => [.group [] reductions]
  | group reduced fields reductions =>
    if (group reduced fields reductions).isVoid then [] else [.group fields reductions]

/-- Whether the group written last has reductions, once what was held back is written. -/
def reducedAfter : Pending → Bool
  | none reduced => reduced
  | loose _ => true
  | group reduced fields reductions =>
    if (group reduced fields reductions).isVoid then reduced else !reductions.isEmpty

/-- One more reduction. -/
def reduce (r : Reduction) : Pending → Pending
  | none _ => loose [r]
  | loose reductions => loose (reductions ++ [r])
  | group reduced fields reductions => group reduced fields (reductions ++ [r])

end Pending

/-- The clauses of the steps after what was held back. -/
def clausesAfter (held : Pending) : List Step → List PipelineClause
  | [] => held.flush
  | .groupBy fields :: rest =>
    match held with
    | .loose reductions => clausesAfter (.group true fields reductions) rest
    | held => held.flush ++ clausesAfter (.group held.reducedAfter fields []) rest
  | .reduce r :: rest => clausesAfter (held.reduce r) rest
  | .sortBy key :: rest => held.flush ++ .sort key :: clausesAfter (.none false) rest
  | .apply expr label :: rest => held.flush ++ .apply expr label :: clausesAfter (.none false) rest
  | .filter expr :: rest => held.flush ++ .filter expr :: clausesAfter (.none false) rest

/-- The clauses of the steps of an aggregation. -/
def AggregatePlan.clauses (p : AggregatePlan) : List PipelineClause :=
  clausesAfter (.none false) p.steps

/-! ## 2. The argument vector -/

/-- A clause as arguments. -/
def PipelineClause.args : PipelineClause → List String
  | group fields reductions =>
    "GROUPBY" :: Nat.repr fields.length :: fields.map ("@" ++ ·)
      ++ reductions.flatMap Reduction.clauseArgs
  | sort key => ["SORTBY", "2", "@" ++ key.field, key.direction.name]
  | apply expr label => ["APPLY", expr, "AS", label]
  | filter expr => ["FILTER", expr]

/-- The argument vector of an aggregation. -/
def AggregatePlan.args (p : AggregatePlan) : List String :=
  [p.indexName, p.queryText.getD "*"]
    ++ p.clauses.flatMap PipelineClause.args
    ++ optionalArgs Window.args p.window

end IndexQuery
