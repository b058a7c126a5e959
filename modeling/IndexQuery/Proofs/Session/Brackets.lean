/-
# The journal brackets every compile

A scope can end well, end with an error or be given up, and the walk along a chain writes entries of its
own until it ends or fails.  What comes of that is simple: a compile with an index leaves its beginning,
the stages that it passed over, and one end (`bracket`); a compile without an index leaves nothing.

`Job.entries` says what one job writes if everything is written, without reference to the session.  A
session writes those entries in order, less the ones below its threshold (`journal_runAll`), so the
counters can be read off the journal.
-/
import IndexQuery.Proofs.Session.Accounting

namespace IndexQuery

/-! ## 1. Entries in a row -/

namespace Journal

/-- The journal after entries, one after another. -/
def logAll (j : Journal) (es : List LogEntry) : Journal :=
  es.foldl log j

theorem logAll_append (j : Journal) (es es' : List LogEntry) :
    j.logAll (es ++ es') = (j.logAll es).logAll es' :=
  List.foldl_append

/-- **What is written of entries in a row**: those from the threshold on, in their order. -/
theorem entries_logAll (j : Journal) (es : List LogEntry) :
    (j.logAll es).entries = j.entries ++ es.filter (j.threshold ≤ ·.severity) := by
  induction es generalizing j with
  | nil => simp [logAll]
  | cons e es ih =>
    have hrest : (j.logAll (e :: es)).entries
        = (j.log e).entries ++ es.filter (j.threshold ≤ ·.severity) := by
      rw [← threshold_log j e]
      exact ih (j.log e)
    rw [hrest, log, enabled]
    by_cases he : j.threshold ≤ e.severity <;> simp [he]

theorem entries_logAll_trace {j : Journal} (h : j.threshold = .trace) (es : List LogEntry) :
    (j.logAll es).entries = j.entries ++ es := by
  rw [entries_logAll, h]
  congr 1
  exact List.filter_eq_self.mpr fun e _ => decide_eq_true (Nat.zero_le e.severity.rank)

end Journal

/-! ## 2. What a compile writes -/

/-- The entry of a stage that is passed over. -/
def skippedEntry (s : Stage) : LogEntry :=
  ⟨.trace, "PIPELINE_STAGE_SKIPPED", [("stage", s.name)]⟩

/-- The stages that an aggregation passes over, innermost first. -/
def passedOver (schema : Schema) (stages : List Stage) : List Stage :=
  (stagesBeforeFailure schema stages).filter (·.name ∉ aggregateNames)

/-- The last entry of a compile, by its result. -/
def endEntry {α : Type} (name index : String) (summary : α → LogFields) : Compiled α → LogEntry
  | .ok a => ⟨.info, name ++ "_COMPLETE", ("index", index) :: summary a⟩
  | .error e => ⟨.error, name ++ "_ERROR", [("index", index), ("code", e.code), ("reason", e.message)]⟩

/-- **The entries of a compile**: none without an index, otherwise its beginning, the stages that were
passed over, and its end. -/
def bracket {α : Type} (name : String) (summary : α → LogFields) (indexName : Option String)
    (passed : List Stage) (result : Compiled α) : List LogEntry :=
  indexName.elim [] fun index =>
    ⟨.trace, name ++ "_BEGIN", [("index", index)]⟩
      :: (passed.map skippedEntry ++ [endEntry name index summary result])

/-- The body of a compile writes between the two ends. -/
theorem journal_observed {α : Type} {name : String} {counted : Counter} {summary : α → LogFields}
    {indexName : Option String} {body : String → Session → Compiled α × Session} {passed : List Stage}
    (s : Session)
    (hbody : ∀ (index : String) (opened : Session),
      (body index opened).2.journal = opened.journal.logAll (passed.map skippedEntry)) :
    (observed name counted summary indexName body s).2.journal
      = s.journal.logAll (bracket name summary indexName passed
          (observed name counted summary indexName body s).1) := by
  cases indexName with
  | none => rfl
  | some index =>
    have hends : (observed name counted summary (some index) body s).2.journal
        = (body index { s with
            journal := (Scope.start name [("index", index)] s.journal).2 }).2.journal.log
          (endEntry name index summary (observed name counted summary (some index) body s).1) := by
      simp only [observed]
      rcases body index _ with ⟨_ | _, _⟩ <;> rfl
    rw [hends, hbody]
    simp only [bracket, Option.elim_some, Journal.logAll, List.foldl_cons, List.foldl_append,
      List.foldl_nil]
    rfl

theorem journal_compileSearch (schema : Schema) (settings : Settings) (e : Expr) (s : Session) :
    (compileSearch schema settings e s).2.journal
      = s.journal.logAll (bracket "COMPILE_QUERY" (fun p => [("query", p.queryText)]) schema.indexName
          [] (compileSearch schema settings e s).1) :=
  journal_observed s fun _ _ => rfl

/-- **The walk along a chain** writes an entry for each stage that it passes over until it ends or
fails.  By induction on the chain; `n` is the place of its first stage. -/
theorem AggregateDraft.journal_run (schema : Schema) (settings : Settings) (stages : List Stage)
    (n : Nat) (d : AggregateDraft) (s : Session) :
    (run schema settings (n == 0) stages d s).2.journal
      = s.journal.logAll (((((stages.zipIdx n).takeWhile (compilesAt schema)).map (·.1)).filter
          (·.name ∉ aggregateNames)).map skippedEntry) := by
  induction stages generalizing n d s with
  | nil => rfl
  | cons stage rest ih =>
    rw [run, List.zipIdx_cons]
    cases hpart : AggregatePart.ofStage schema (n == 0) stage with
    | error e => simp [compilesAt, hpart, Except.isOk, Except.toBool, Journal.logAll]
    | ok part =>
      have hcompiles : compilesAt schema (stage, n) = true := by
        simp [compilesAt, hpart, Except.isOk, Except.toBool]
      have hnames := AggregatePart.not_mem_iff_of_ofStage hpart
      rw [List.takeWhile_cons_of_pos hcompiles, List.map_cons]
      cases part with
      | some part =>
        rw [List.filter_cons_of_neg (by simp [hnames])]
        exact ih (n + 1) (d.add settings part) s
      | none =>
        rw [List.filter_cons_of_pos (by simp [hnames])]
        exact ih (n + 1) d (s.skip stage.name)

theorem journal_compileAggregate (schema : Schema) (settings : Settings) (e : Expr) (s : Session) :
    (compileAggregate schema settings e s).2.journal
      = s.journal.logAll (bracket "COMPILE_AGGREGATION"
          (fun p => [("stages", Nat.repr p.steps.length)]) schema.indexName
          (passedOver schema e.stages.reverse) (compileAggregate schema settings e s).1) :=
  journal_observed s fun _ opened =>
    AggregateDraft.journal_run schema settings e.stages.reverse 0 {} opened

/-- A scope that has ended writes nothing if it is given up. -/
theorem Scope.abandon_of_ended {scope : Scope} (h : scope.ended = true) (j : Journal) :
    scope.abandon j = j :=
  if_pos h

/-! ## 3. What a session writes -/

/-- The mode of what a session is asked to do. -/
def Action.mode : Action → Mode
  | compile mode | explain mode => mode

namespace Job

/-- **What a job writes** if everything is written. -/
def entries (j : Job) : List LogEntry :=
  match j.action.mode with
  | .search =>
    bracket "COMPILE_QUERY" (fun p => [("query", p.queryText)]) j.schema.indexName []
      (compileSearch j.schema j.settings j.expr {}).1
  | .aggregate =>
    bracket "COMPILE_AGGREGATION" (fun p => [("stages", Nat.repr p.steps.length)]) j.schema.indexName
      (passedOver j.schema j.expr.stages.reverse) (compileAggregate j.schema j.settings j.expr {}).1

/-- **One job** writes its entries, an explanation no others than a compile. -/
theorem journal_run (j : Job) (s : Session) : (j.run s).journal = s.journal.logAll j.entries := by
  have hsearch := journal_compileSearch j.schema j.settings j.expr s
  have haggregate := journal_compileAggregate j.schema j.settings j.expr s
  rw [compileSearch_fst, ← compileSearch_fst j.schema j.settings j.expr {}] at hsearch
  rw [compileAggregate_fst, ← compileAggregate_fst j.schema j.settings j.expr {}] at haggregate
  obtain ⟨action, schema, settings, expr⟩ := j
  rcases action with mode | mode <;> cases mode
  · exact hsearch
  · exact haggregate
  · exact hsearch
  · exact haggregate

end Job

/-- **All jobs of a session** write their entries in order.  By induction on the jobs, each by
`Job.journal_run`. -/
theorem journal_runAll (jobs : List Job) (s : Session) :
    (runAll jobs s).journal = s.journal.logAll (jobs.flatMap Job.entries) := by
  induction jobs generalizing s with
  | nil => rfl
  | cons j jobs ih =>
    have hrun : runAll (j :: jobs) s = runAll jobs (j.run s) := rfl
    rw [hrun, ih, j.journal_run, List.flatMap_cons, Journal.logAll_append]

/-! ## 4. The journal and the counters -/

/-- The events of the journal that a counter counts. -/
def Counter.eventNames : Counter → List String
  | queriesCompiled => ["COMPILE_QUERY_COMPLETE"]
  | aggregationsCompiled => ["COMPILE_AGGREGATION_COMPLETE"]
  | compileFailures => ["COMPILE_QUERY_ERROR", "COMPILE_AGGREGATION_ERROR"]
  | stagesSkipped => ["PIPELINE_STAGE_SKIPPED"]

/-- How many entries a counter counts. -/
def Counter.countEntries (k : Counter) (es : List LogEntry) : Nat :=
  es.countP (·.event ∈ k.eventNames)

namespace Counter

theorem countEntries_append (k : Counter) (es es' : List LogEntry) :
    k.countEntries (es ++ es') = k.countEntries es + k.countEntries es' :=
  List.countP_append

theorem countEntries_skipped (k : Counter) (passed : List Stage) :
    k.countEntries (passed.map skippedEntry) = if k = .stagesSkipped then passed.length else 0 := by
  cases k <;> simp [countEntries, eventNames, skippedEntry, List.countP_map, Function.comp_def]

/-- Of a search the end is counted. -/
theorem countEntries_search (k : Counter) (summary : SearchPlan → LogFields) (index : String)
    (result : Compiled SearchPlan) :
    k.countEntries (bracket "COMPILE_QUERY" summary (some index) [] result)
      = if endCounter .queriesCompiled result = k then 1 else 0 := by
  cases result <;> cases k <;> simp [countEntries, bracket, endEntry, endCounter, eventNames]

/-- Of an aggregation the end is counted, and what was passed over. -/
theorem countEntries_aggregate (k : Counter) (summary : AggregatePlan → LogFields) (index : String)
    (passed : List Stage) (result : Compiled AggregatePlan) :
    k.countEntries (bracket "COMPILE_AGGREGATION" summary (some index) passed result)
      = (if .stagesSkipped = k then passed.length else 0)
        + if endCounter .aggregationsCompiled result = k then 1 else 0 := by
  have hpassed := k.countEntries_skipped passed
  cases result <;> cases k <;> simp_all [countEntries, bracket, endEntry, endCounter, eventNames]

end Counter

namespace Job

/-- Without an index a job writes nothing. -/
theorem entries_of_no_index {j : Job} (hindex : j.schema.indexName = none) : j.entries = [] := by
  unfold entries
  cases j.action.mode <;> rw [hindex] <;> rfl

theorem accepted_of_no_index {j : Job} (hindex : j.schema.indexName = none) (mode : Mode) :
    j.accepted mode = false := by
  cases mode <;> simp only [accepted, respond, compileSearch_fst, compileAggregate_fst, hindex] <;> rfl

theorem countEntries_of_search {j : Job} (h : j.action = .compile .search) {index : String}
    (hindex : j.schema.indexName = some index) (k : Counter) :
    k.countEntries j.entries
      = if (bif j.accepted .search then .queriesCompiled else .compileFailures) = k then 1 else 0 := by
  have hend := endCounter_map .queriesCompiled (compileSearch j.schema j.settings j.expr {}).1
    Response.ofSearch
  simp only [entries, h, Action.mode, hindex, Counter.countEntries_search, hend]
  rfl

theorem countEntries_of_aggregate {j : Job} (h : j.action = .compile .aggregate) {index : String}
    (hindex : j.schema.indexName = some index) (k : Counter) :
    k.countEntries j.entries
      = (if .stagesSkipped = k then j.skipped else 0)
        + if (bif j.accepted .aggregate then .aggregationsCompiled else .compileFailures) = k then 1
          else 0 := by
  have hend := endCounter_map .aggregationsCompiled
    (compileAggregate j.schema j.settings j.expr {}).1 Response.ofAggregate
  have hskipped : j.skipped = (passedOver j.schema j.expr.stages.reverse).length := by
    simp [skipped, h, hindex, passedOver, List.countP_eq_length_filter]
  simp only [entries, h, Action.mode, hindex, Counter.countEntries_aggregate, hend, hskipped]
  rfl

/-- **A compile counts what it writes**, but for a rejection without an index, which is not written. -/
theorem events_eq_countEntries {j : Job} {mode : Mode} (h : j.action = .compile mode) (k : Counter) :
    j.events k = k.countEntries j.entries
      + if k = .compileFailures ∧ j.schema.indexName = none then 1 else 0 := by
  cases hindex : j.schema.indexName with
  | none =>
    have hrejected := accepted_of_no_index hindex
    rw [entries_of_no_index hindex]
    cases k <;> simp [events, accepts, rejected, skipped, h, hindex, hrejected, Counter.countEntries]
  | some index =>
    cases mode with
    | search =>
      rw [countEntries_of_search h hindex]
      cases k <;> cases haccepted : j.accepted .search <;>
        simp [events, accepts, rejected, skipped, h, haccepted]
    | aggregate =>
      rw [countEntries_of_aggregate h hindex]
      cases k <;> cases haccepted : j.accepted .aggregate <;>
        simp [events, accepts, rejected, h, haccepted]

end Job

/-- The events of compiles, added up. -/
theorem sum_events {jobs : List Job} (h : ∀ j ∈ jobs, ∃ mode, j.action = .compile mode)
    (k : Counter) :
    (jobs.map (·.events k)).sum = k.countEntries (jobs.flatMap Job.entries)
      + if k = .compileFailures then jobs.countP (·.schema.indexName = none) else 0 := by
  induction jobs with
  | nil => simp [Counter.countEntries]
  | cons j jobs ih =>
    obtain ⟨⟨mode, hmode⟩, hjobs⟩ := List.forall_mem_cons.mp h
    rw [List.map_cons, List.sum_cons, ih hjobs, Job.events_eq_countEntries hmode, List.flatMap_cons,
      Counter.countEntries_append, List.countP_cons]
    by_cases hk : k = .compileFailures
    · simp only [hk, true_and, if_true, decide_eq_true_eq]
      omega
    · simp only [hk, false_and, if_false]
      omega

/-- The entries of a session that starts with an empty journal. -/
theorem entries_runAll_atThreshold (jobs : List Job) (t : Severity) :
    (runAll jobs (.atThreshold t)).journal.entries
      = (jobs.flatMap Job.entries).filter (t ≤ ·.severity) := by
  rw [journal_runAll, Journal.entries_logAll]
  rfl

/-- **The journal brackets every compile and agrees with the counters.**  Where everything is written,
a compile with an index writes its beginning, the stages that an aggregation passed over, innermost
first, and one end: well if it was accepted, otherwise with the code and the message of its error.
Without an index it writes nothing, and a scope that ended writes nothing more when it is given up.  A
session writes the entries of its jobs in order.  If all jobs are compiles, every counter is up to the
size of a word the number of its events in the journal; only the rejections without an index are
counted and not written.  At any other threshold the entries are those of at least that severity, in
the same order. -/
theorem journal_brackets (jobs : List Job) :
    (∀ (schema : Schema) (settings : Settings) (e : Expr) (s : Session),
      s.journal.threshold = .trace →
      (compileSearch schema settings e s).2.journal.entries = s.journal.entries
        ++ bracket "COMPILE_QUERY" (fun p => [("query", p.queryText)]) schema.indexName []
          (compileSearch schema settings e s).1 ∧
      (compileAggregate schema settings e s).2.journal.entries = s.journal.entries
        ++ bracket "COMPILE_AGGREGATION" (fun p => [("stages", Nat.repr p.steps.length)])
          schema.indexName (passedOver schema e.stages.reverse)
          (compileAggregate schema settings e s).1) ∧
    (∀ (scope : Scope) (extra : LogFields) (code reason : String) (journal journal' : Journal),
      (scope.complete extra journal).1.abandon journal' = journal' ∧
      (scope.fail code reason journal).1.abandon journal' = journal') ∧
    (runAll jobs (.atThreshold .trace)).journal.entries = jobs.flatMap Job.entries ∧
    ((∀ j ∈ jobs, ∃ mode, j.action = .compile mode) → ∀ k : Counter,
      ((runAll jobs (.atThreshold .trace)).counters.value k).toNat
        = (k.countEntries (runAll jobs (.atThreshold .trace)).journal.entries
          + if k = .compileFailures then jobs.countP (·.schema.indexName = none) else 0)
          % UInt64.size) ∧
    ∀ t : Severity, (runAll jobs (.atThreshold t)).journal.entries
      = (runAll jobs (.atThreshold .trace)).journal.entries.filter (t ≤ ·.severity) := by
  have htrace : (runAll jobs (.atThreshold .trace)).journal.entries = jobs.flatMap Job.entries := by
    rw [journal_runAll, Journal.entries_logAll_trace rfl]
    rfl
  refine ⟨?_, ?_, htrace, ?_, ?_⟩
  · intro schema settings e s hthreshold
    rw [journal_compileSearch, journal_compileAggregate]
    exact ⟨Journal.entries_logAll_trace hthreshold _, Journal.entries_logAll_trace hthreshold _⟩
  · intro scope extra code reason journal journal'
    exact ⟨Scope.abandon_of_ended rfl journal', Scope.abandon_of_ended rfl journal'⟩
  · intro hcompiles k
    rw [value_runAll, UInt64.toNat_add, UInt64.toNat_ofNat', htrace, ← sum_events hcompiles]
    cases k <;> simp [Counters.value, Session.atThreshold]
  · intro t
    rw [htrace, entries_runAll_atThreshold]

theorem journal_brackets_sampleJobs :
    (∀ j ∈ sampleJobs.take 4, ∃ mode, j.action = .compile mode) ∧
    (runAll (sampleJobs.take 4) (.atThreshold .trace)).journal.entries.map (·.event)
      = ["COMPILE_QUERY_BEGIN", "COMPILE_QUERY_COMPLETE",
         "COMPILE_AGGREGATION_BEGIN", "PIPELINE_STAGE_SKIPPED", "PIPELINE_STAGE_SKIPPED",
         "COMPILE_AGGREGATION_COMPLETE",
         "COMPILE_AGGREGATION_BEGIN", "PIPELINE_STAGE_SKIPPED", "COMPILE_AGGREGATION_ERROR"] ∧
    ((runAll (sampleJobs.take 4) (.atThreshold .trace)).counters.value .compileFailures).toNat = 2 ∧
    (runAll (sampleJobs.take 4) (.atThreshold .error)).journal.entries.map (·.event)
      = ["COMPILE_AGGREGATION_ERROR"] ∧
    (compileSearch citySchema {} (bareChain ["First"]) (.atThreshold .trace)).2.journal.entries
      = [⟨.trace, "COMPILE_QUERY_BEGIN", [("index", "people")]⟩,
         ⟨.info, "COMPILE_QUERY_COMPLETE", [("index", "people"), ("query", "*")]⟩] := by
  have hcompiles : ∀ j ∈ sampleJobs.take 4, ∃ mode, j.action = .compile mode := by
    simp [sampleJobs]
  obtain ⟨hone, -, htrace, hcounters, hother⟩ := journal_brackets (sampleJobs.take 4)
  refine ⟨hcompiles, by rw [htrace]; rfl, ?_, ?_, ?_⟩
  · rw [hcounters hcompiles, htrace]
    rfl
  · rw [hother, htrace]
    rfl
  · exact (hone citySchema {} (bareChain ["First"]) (.atThreshold .trace) rfl).1

end IndexQuery
