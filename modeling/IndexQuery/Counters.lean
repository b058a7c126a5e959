/-
# Counters

Four counters account for the compiles of a session.  They are words of 64 bits and wrap around.

They are those of `CompileMetrics`.
-/
import IndexQuery.Json.Basic

namespace IndexQuery

/-- How many searches and aggregations were compiled, how many compiles were rejected and how many
stages were passed over. -/
structure Counters where
  queriesCompiled : UInt64 := 0
  aggregationsCompiled : UInt64 := 0
  compileFailures : UInt64 := 0
  stagesSkipped : UInt64 := 0
  deriving DecidableEq

/-- What is counted. -/
inductive Counter where
  | queriesCompiled | aggregationsCompiled | compileFailures | stagesSkipped
  deriving DecidableEq

namespace Counter

/-- The name of a counter. -/
def name : Counter → String
  | queriesCompiled => "queries_compiled"
  | aggregationsCompiled => "aggregations_compiled"
  | compileFailures => "compile_failures"
  | stagesSkipped => "stages_skipped"

/-- All counters, by name. -/
def all : List Counter :=
  [aggregationsCompiled, compileFailures, queriesCompiled, stagesSkipped]

/-- The counter of a name. -/
def ofName? (name : String) : Option Counter :=
  all.find? (·.name == name)

end Counter

namespace Counters

/-- The counters after one more event. -/
def increment (c : Counters) : Counter → Counters
  | .queriesCompiled => { c with queriesCompiled := c.queriesCompiled + 1 }
  | .aggregationsCompiled => { c with aggregationsCompiled := c.aggregationsCompiled + 1 }
  | .compileFailures => { c with compileFailures := c.compileFailures + 1 }
  | .stagesSkipped => { c with stagesSkipped := c.stagesSkipped + 1 }

/-- The value of a counter. -/
def value (c : Counters) : Counter → UInt64
  | .queriesCompiled => c.queriesCompiled
  | .aggregationsCompiled => c.aggregationsCompiled
  | .compileFailures => c.compileFailures
  | .stagesSkipped => c.stagesSkipped

/-- The counters by name, as texts. -/
def fields (c : Counters) : List (String × String) :=
  Counter.all.map fun k => (k.name, Nat.repr (c.value k).toNat)

/-- The JSON form of the counters. -/
def toJson (c : Counters) : Json :=
  .obj (Counter.all.map fun k => (k.name, Json.ofUInt64 (c.value k)))

/-- An increment adds one to its own counter and leaves the others. -/
theorem value_increment (c : Counters) (k l : Counter) :
    (c.increment k).value l = if k = l then c.value l + 1 else c.value l := by
  cases k <;> cases l <;> rfl

end Counters

end IndexQuery
