/-
# Sessions

A session is what compiles leave behind: the journal and the counters.

`observed` is what `compile` does around `build`, in `QueryAssembler` and `PipelineCompiler` alike.
-/
import IndexQuery.Counters
import IndexQuery.Error
import IndexQuery.Log.Journal

namespace IndexQuery

/-- The journal and the counters. -/
structure Session where
  journal : Journal := {}
  counters : Counters := {}
  deriving DecidableEq

namespace Session

/-- A session that writes entries from a severity on. -/
def atThreshold (threshold : Severity) : Session :=
  { journal := { threshold } }

/-- The session after an entry. -/
def log (s : Session) (e : LogEntry) : Session :=
  { s with journal := s.journal.log e }

/-- The session after one more event. -/
def count (s : Session) (k : Counter) : Session :=
  { s with counters := s.counters.increment k }

/-- The session after a stage was passed over. -/
def skip (s : Session) (stage : String) : Session :=
  (s.log ⟨.trace, "PIPELINE_STAGE_SKIPPED", [("stage", stage)]⟩).count .stagesSkipped

end Session

/-- A compile under a name, in a scope with the name of the index.  Without an index it is rejected
and leaves no entry; otherwise the body runs between the two ends of the scope.  `counted` is the
counter of an accepted compile, and `summary` the fields that its result adds to the last entry. -/
def observed {α : Type} (name : String) (counted : Counter) (summary : α → LogFields)
    (indexName : Option String) (body : String → Session → Compiled α × Session) (s : Session) :
    Compiled α × Session :=
  match indexName with
  | none => (.error .missingIndex, s.count .compileFailures)
  | some index =>
    let (scope, journal) := Scope.start name [("index", index)] s.journal
    match body index { s with journal } with
    | (.ok a, s) =>
      let (_, journal) := scope.complete (summary a) s.journal
      (.ok a, { s with journal }.count counted)
    | (.error e, s) =>
      let (_, journal) := scope.fail e.code e.message s.journal
      (.error e, { s with journal }.count .compileFailures)

end IndexQuery
