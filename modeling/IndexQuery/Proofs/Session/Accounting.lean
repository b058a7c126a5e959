/-
# The counters account for every job of a session

A session is asked to compile and to explain, one job after another, and its counters go up on five
different paths: before a scope is opened, in the middle of a walk that may still fail, and at either
end of a compile.  Here is what they add up to.  `Job.events` says for one job how often each counter
goes up, without reference to the session, and `Job.value_run` that this is what running the job
does.  Everything about a whole session follows by adding up (`value_runAll`).

The counter of stages that are passed over is the only one that a rejected compile may leave higher
than by one.  It counts the stages that the walk has met before it failed, which are those nearer the
source than the innermost stage that fails (`stagesBeforeFailure`).
-/
import IndexQuery.Compile.Response
import IndexQuery.Proofs.Aggregate.Stages
import IndexQuery.Proofs.Search.Assembly
import Mathlib.Algebra.GroupWithZero.Nat
import Mathlib.Data.List.TakeWhile

namespace IndexQuery

/-! ## 1. Jobs -/

/-- What a session is asked to do. -/
inductive Action where
  | compile (mode : Mode)
  | explain (mode : Mode)
  deriving DecidableEq

/-- An expression to be compiled or explained, under a schema and settings of its own. -/
structure Job where
  action : Action
  schema : Schema
  settings : Settings
  expr : Expr

namespace Job

/-- The session after a job. -/
def run (j : Job) (s : Session) : Session :=
  match j.action with
  | .compile mode => (respond mode j.schema j.settings j.expr s).2
  | .explain mode => (IndexQuery.explain mode j.schema j.settings j.expr s).2

/-- Whether the expression of a job compiles in a mode. -/
def accepted (j : Job) (mode : Mode) : Bool :=
  (respond mode j.schema j.settings j.expr {}).1.isOk

/-- A job that compiles in a mode, and is accepted. -/
def accepts (j : Job) (mode : Mode) : Bool :=
  decide (j.action = .compile mode) && j.accepted mode

/-- A job that compiles in either mode, and is rejected. -/
def rejected (j : Job) : Bool :=
  match j.action with
  | .compile mode => !j.accepted mode
  | .explain _ => false

end Job

/-- The session after jobs, one after another. -/
def runAll (jobs : List Job) (s : Session) : Session :=
  jobs.foldl (fun s j => j.run s) s

/-- Whether a stage compiles at its place in a chain, places counted from the source. -/
def compilesAt (schema : Schema) (placed : Stage × Nat) : Bool :=
  (AggregatePart.ofStage schema (placed.2 == 0) placed.1).isOk

/-- The stages nearer the source than the innermost one that fails, innermost first; all of them if
none fails. -/
def stagesBeforeFailure (schema : Schema) (stages : List Stage) : List Stage :=
  (stages.zipIdx.takeWhile (compilesAt schema)).map (·.1)

/-- How many stages an aggregation passes over. -/
def Job.skipped (j : Job) : Nat :=
  if j.action = .compile .aggregate ∧ j.schema.indexName.isSome then
    (stagesBeforeFailure j.schema j.expr.stages.reverse).countP (·.name ∉ aggregateNames)
  else 0

/-- **How often a job makes each counter go up.** -/
def Job.events (j : Job) : Counter → Nat
  | .queriesCompiled => (j.accepts .search).toNat
  | .aggregationsCompiled => (j.accepts .aggregate).toNat
  | .compileFailures => j.rejected.toNat
  | .stagesSkipped => j.skipped

/-! ## 2. What a scope counts -/

/-- The counter of how a compile ended. -/
def endCounter {α : Type} (counted : Counter) : Compiled α → Counter
  | .ok _ => counted
  | .error _ => .compileFailures

theorem Counters.value_increment_add (c : Counters) (k l : Counter) :
    (c.increment k).value l = c.value l + UInt64.ofNat (if k = l then 1 else 0) := by
  rw [value_increment]
  split <;> simp

/-- A compile with an index counts what its body counts, and then how it ended. -/
theorem value_observed_some {α : Type} {name : String} {counted : Counter} {summary : α → LogFields}
    {index : String} {body : String → Session → Compiled α × Session} {s : Session} {k : Counter}
    {n : Nat}
    (hbody : ∀ opened : Session, opened.counters = s.counters →
      (body index opened).2.counters.value k = s.counters.value k + UInt64.ofNat n) :
    (observed name counted summary (some index) body s).2.counters.value k
      = s.counters.value k + UInt64.ofNat (n + if endCounter counted
          (observed name counted summary (some index) body s).1 = k then 1 else 0) := by
  have hopened := hbody { s with journal := (Scope.start name [("index", index)] s.journal).2 } rfl
  have hends : (observed name counted summary (some index) body s).2.counters
      = (body index { s with
          journal := (Scope.start name [("index", index)] s.journal).2 }).2.counters.increment
        (endCounter counted (observed name counted summary (some index) body s).1) := by
    simp only [observed]
    rcases body index _ with ⟨_ | _, _⟩ <;> rfl
  rw [hends, Counters.value_increment_add, hopened, UInt64.ofNat_add, UInt64.add_assoc]

theorem value_compileSearch (schema : Schema) (settings : Settings) (e : Expr) (s : Session)
    (k : Counter) :
    (compileSearch schema settings e s).2.counters.value k
      = s.counters.value k + UInt64.ofNat
        (if endCounter .queriesCompiled (compileSearch schema settings e s).1 = k then 1 else 0) := by
  unfold compileSearch
  cases schema.indexName with
  | none => exact Counters.value_increment_add s.counters .compileFailures k
  | some index =>
    refine (value_observed_some (n := 0) ?_).trans (by rw [Nat.zero_add])
    intro opened hopened
    simp [hopened]

/-- A stage asks for something exactly if its name is in the table. -/
theorem AggregatePart.not_mem_iff_of_ofStage {schema : Schema} {innermost : Bool} {s : Stage}
    {part : Option AggregatePart} (h : ofStage schema innermost s = .ok part) :
    s.name ∉ aggregateNames ↔ part = none := by
  constructor
  · intro hname
    cases (ofStage_of_not_mem hname).symm.trans h
    rfl
  · rintro rfl
    cases requests_of_ofStage h with
    | passedOver hname => exact hname

/-- **The walk along a chain** counts the stages that it passes over until it ends or fails.  By
induction on the chain; `n` is the place of its first stage. -/
theorem AggregateDraft.value_run (schema : Schema) (settings : Settings) (stages : List Stage)
    (n : Nat) (d : AggregateDraft) (s : Session) (k : Counter) :
    (run schema settings (n == 0) stages d s).2.counters.value k
      = s.counters.value k + UInt64.ofNat (if .stagesSkipped = k then
          ((stages.zipIdx n).takeWhile (compilesAt schema)).countP (·.1.name ∉ aggregateNames)
        else 0) := by
  induction stages generalizing n d s with
  | nil => simp [run]
  | cons stage rest ih =>
    rw [run, List.zipIdx_cons]
    cases hpart : AggregatePart.ofStage schema (n == 0) stage with
    | error e => simp [compilesAt, hpart, Except.isOk, Except.toBool]
    | ok part =>
      have hcompiles : compilesAt schema (stage, n) = true := by
        simp [compilesAt, hpart, Except.isOk, Except.toBool]
      have hnames := AggregatePart.not_mem_iff_of_ofStage hpart
      rw [List.takeWhile_cons_of_pos hcompiles, List.countP_cons]
      cases part with
      | some part =>
        have hrest := ih (n + 1) (d.add settings part) s
        simp_all
      | none =>
        have hskip : (s.skip stage.name).counters.value k
            = s.counters.value k + UInt64.ofNat (if .stagesSkipped = k then 1 else 0) :=
          Counters.value_increment_add _ _ _
        have hrest := ih (n + 1) d (s.skip stage.name)
        rw [hskip, UInt64.add_assoc, ← UInt64.ofNat_add] at hrest
        refine hrest.trans ?_
        by_cases hk : Counter.stagesSkipped = k <;> simp_all [Nat.add_comm]

/-- What an aggregation counts: how it ended and, if there is an index, what it passed over. -/
theorem value_compileAggregate (schema : Schema) (settings : Settings) (e : Expr) (s : Session)
    (k : Counter) :
    (compileAggregate schema settings e s).2.counters.value k
      = s.counters.value k + UInt64.ofNat
        ((if .stagesSkipped = k ∧ schema.indexName.isSome then
            (stagesBeforeFailure schema e.stages.reverse).countP (·.name ∉ aggregateNames) else 0)
          + (if endCounter .aggregationsCompiled (compileAggregate schema settings e s).1 = k then 1
            else 0)) := by
  unfold compileAggregate
  cases schema.indexName with
  | none =>
    rw [if_neg (by simp), Nat.zero_add]
    exact Counters.value_increment_add s.counters .compileFailures k
  | some index =>
    refine value_observed_some ?_
    intro opened hopened
    have hwalk := AggregateDraft.value_run schema settings e.stages.reverse 0 {} opened k
    rw [hopened] at hwalk
    simpa [stagesBeforeFailure, List.countP_map, Function.comp_def] using hwalk

/-! ## 3. What a job counts -/

/-- A chain compiles exactly if each of its stages does at its place; `n` is the place of the first
one. -/
theorem AggregatePart.exists_ofStages_iff (schema : Schema) (stages : List Stage) (n : Nat) :
    (∃ parts, ofStages schema (n == 0) stages = .ok parts) ↔
      ∀ placed ∈ stages.zipIdx n, compilesAt schema placed = true := by
  induction stages generalizing n with
  | nil => simp [ofStages]
  | cons s stages ih =>
    simp only [ofStages_cons_eq_ok, List.zipIdx_cons, List.forall_mem_cons, ← ih (n + 1)]
    have hhead : compilesAt schema (s, n) = true ↔ ∃ part, ofStage schema (n == 0) s = .ok part := by
      cases h : ofStage schema (n == 0) s <;> simp [compilesAt, h, Except.isOk, Except.toBool]
    rw [hhead]
    constructor
    · rintro ⟨_, part, rest, hpart, hrest, rfl⟩
      exact ⟨⟨part, hpart⟩, rest, hrest⟩
    · rintro ⟨⟨part, hpart⟩, rest, hrest⟩
      exact ⟨_, part, rest, hpart, hrest, rfl⟩

theorem stagesBeforeFailure_eq_self_iff (schema : Schema) (stages : List Stage) :
    stagesBeforeFailure schema stages = stages ↔
      ∀ placed ∈ stages.zipIdx, compilesAt schema placed = true := by
  rw [← List.takeWhile_eq_self_iff, stagesBeforeFailure]
  constructor
  · intro h
    have hlength := congrArg List.length h
    rw [List.length_map] at hlength
    refine (List.takeWhile_prefix _).eq_of_length ?_
    rw [hlength, List.length_zipIdx]
  · intro h
    rw [h, List.zipIdx_map_fst]

/-- What a request is answered does not depend on the session. -/
theorem respond_fst (mode : Mode) (schema : Schema) (settings : Settings) (e : Expr)
    (s s' : Session) :
    (respond mode schema settings e s).1 = (respond mode schema settings e s').1 := by
  cases mode with
  | search => simp only [respond, compileSearch_fst]
  | aggregate => simp only [respond, compileAggregate_fst]

theorem endCounter_map {α β : Type} (counted : Counter) (r : Compiled α) (f : α → β) :
    endCounter counted r = bif (r.map f).isOk then counted else .compileFailures := by
  cases r <;> rfl

namespace Job

/-- An aggregation with an index is rejected exactly if one of its stages fails. -/
theorem accepted_aggregate_iff {j : Job} (hindex : j.schema.indexName.isSome) :
    j.accepted .aggregate = true ↔
      stagesBeforeFailure j.schema j.expr.stages.reverse = j.expr.stages.reverse := by
  obtain ⟨index, hindex⟩ := Option.isSome_iff_exists.mp hindex
  rw [stagesBeforeFailure_eq_self_iff, ← AggregatePart.exists_ofStages_iff]
  simp only [accepted, respond, compileAggregate_fst, hindex, Option.elim_some, beq_self_eq_true]
  cases AggregatePart.ofStages j.schema true j.expr.stages.reverse <;>
    simp [Except.map, Except.isOk, Except.toBool]

/-- An explanation leaves the counters as they are. -/
theorem counters_run_explain {j : Job} {mode : Mode} (h : j.action = .explain mode) (s : Session) :
    (j.run s).counters = s.counters := by
  cases mode <;> simp [run, h, IndexQuery.explain]

theorem value_run_search {j : Job} (h : j.action = .compile .search) (s : Session) (k : Counter) :
    (j.run s).counters.value k = s.counters.value k + UInt64.ofNat
      (if (bif j.accepted .search then .queriesCompiled else .compileFailures) = k then 1 else 0) := by
  have hrun : j.run s = (compileSearch j.schema j.settings j.expr s).2 := by simp [run, h, respond]
  rw [hrun, value_compileSearch, endCounter_map _ _ Response.ofSearch, accepted,
    respond_fst .search _ _ _ {} s]
  rfl

theorem value_run_aggregate {j : Job} (h : j.action = .compile .aggregate) (s : Session)
    (k : Counter) :
    (j.run s).counters.value k = s.counters.value k + UInt64.ofNat
      ((if .stagesSkipped = k then j.skipped else 0)
        + (if (bif j.accepted .aggregate then .aggregationsCompiled else .compileFailures) = k then 1
          else 0)) := by
  have hrun : j.run s = (compileAggregate j.schema j.settings j.expr s).2 := by
    simp [run, h, respond]
  have hskipped : j.skipped = if j.schema.indexName.isSome then
      (stagesBeforeFailure j.schema j.expr.stages.reverse).countP (·.name ∉ aggregateNames)
      else 0 := by
    simp [skipped, h]
  rw [hrun, value_compileAggregate, endCounter_map _ _ Response.ofAggregate, accepted,
    respond_fst .aggregate _ _ _ {} s, hskipped, ite_and]
  rfl

/-- **One job** adds its events to the counters, whatever they are. -/
theorem value_run (j : Job) (s : Session) (k : Counter) :
    (j.run s).counters.value k = s.counters.value k + UInt64.ofNat (j.events k) := by
  cases haction : j.action with
  | explain mode =>
    rw [counters_run_explain haction]
    cases k <;> simp [events, accepts, rejected, skipped, haction]
  | compile mode =>
    cases mode with
    | search =>
      rw [value_run_search haction]
      cases k <;> cases h : j.accepted .search <;>
        simp [events, accepts, rejected, skipped, haction, h]
    | aggregate =>
      rw [value_run_aggregate haction]
      cases k <;> cases h : j.accepted .aggregate <;> simp [events, accepts, rejected, haction, h]

end Job

/-! ## 4. What a session counts -/

/-- **All jobs of a session** add their events.  By induction on the jobs, each by `Job.value_run`. -/
theorem value_runAll (jobs : List Job) (s : Session) (k : Counter) :
    (runAll jobs s).counters.value k
      = s.counters.value k + UInt64.ofNat (jobs.map (·.events k)).sum := by
  induction jobs generalizing s with
  | nil => simp [runAll]
  | cons j jobs ih =>
    have hrun : runAll (j :: jobs) s = runAll jobs (j.run s) := rfl
    rw [hrun, ih, j.value_run, List.map_cons, List.sum_cons, UInt64.ofNat_add, UInt64.add_assoc]

theorem sum_map_toNat {α : Type} (p : α → Bool) (xs : List α) :
    (xs.map fun x => (p x).toNat).sum = xs.countP p := by
  induction xs with
  | nil => rfl
  | cons x xs ih => cases h : p x <;> simp [h, ih, Nat.add_comm]

/-- **The counters account for every job of a session.**  Started at zero, and up to the size of a
word, they are at any moment the numbers of searches accepted so far, of aggregations accepted, of
compiles of either mode rejected, and of the stages that aggregations with an index passed over: all
such stages of an accepted one, and of a rejected one those nearer the source than the innermost stage
that fails.  Whether a job is accepted does not depend on the session, and an explanation leaves the
counters as they are. -/
theorem counters_runAll (journal : Journal) (jobs : List Job) :
    (∀ (j : Job) (mode : Mode) (s : Session),
      (respond mode j.schema j.settings j.expr s).1.isOk = j.accepted mode) ∧
    (∀ j : Job, j.schema.indexName.isSome → (j.accepted .aggregate = true ↔
      stagesBeforeFailure j.schema j.expr.stages.reverse = j.expr.stages.reverse)) ∧
    (∀ (j : Job) (mode : Mode) (s : Session), j.action = .explain mode →
      (j.run s).counters = s.counters) ∧
    (runAll jobs { journal }).counters.queriesCompiled.toNat
      = jobs.countP (·.accepts .search) % UInt64.size ∧
    (runAll jobs { journal }).counters.aggregationsCompiled.toNat
      = jobs.countP (·.accepts .aggregate) % UInt64.size ∧
    (runAll jobs { journal }).counters.compileFailures.toNat
      = jobs.countP Job.rejected % UInt64.size ∧
    (runAll jobs { journal }).counters.stagesSkipped.toNat
      = (jobs.map Job.skipped).sum % UInt64.size := by
  have hvalue (k : Counter) : ((runAll jobs { journal }).counters.value k).toNat
      = (jobs.map (·.events k)).sum % UInt64.size := by
    rw [value_runAll, UInt64.toNat_add, UInt64.toNat_ofNat']
    cases k <;> simp [Counters.value]
  refine ⟨?_, fun j hindex => j.accepted_aggregate_iff hindex,
    fun j mode s h => Job.counters_run_explain h s, ?_, ?_, ?_, hvalue .stagesSkipped⟩
  · intro j mode s
    rw [respond_fst mode _ _ _ s {}, Job.accepted]
  · rw [← sum_map_toNat]
    exact hvalue .queriesCompiled
  · rw [← sum_map_toNat]
    exact hvalue .aggregationsCompiled
  · rw [← sum_map_toNat]
    exact hvalue .compileFailures

/-- A chain of stages without arguments. -/
def bareChain (names : List String) : Expr :=
  (Expr.constant (.str "people")).chainAll (names.map fun name => ⟨name, []⟩)

/-- A search that is accepted, one without an index, an aggregation that passes over two stages, one
that fails at `Take` and leaves the stage behind it, and an explanation of it. -/
def sampleJobs : List Job :=
  [⟨.compile .search, citySchema, {}, bareChain ["First"]⟩,
   ⟨.compile .search, .declare none, {}, bareChain ["First"]⟩,
   ⟨.compile .aggregate, citySchema, {}, bareChain ["AsNoTracking", "Count", "ToList"]⟩,
   ⟨.compile .aggregate, citySchema, {}, bareChain ["AsNoTracking", "Take", "ToList"]⟩,
   ⟨.explain .aggregate, citySchema, {}, bareChain ["AsNoTracking", "Take", "ToList"]⟩]

theorem counters_runAll_sampleJobs :
    (runAll sampleJobs {}).counters.queriesCompiled.toNat = 1 ∧
    (runAll sampleJobs {}).counters.aggregationsCompiled.toNat = 1 ∧
    (runAll sampleJobs {}).counters.compileFailures.toNat = 2 ∧
    (runAll sampleJobs {}).counters.stagesSkipped.toNat = 3 ∧
    (∃ j ∈ sampleJobs, j.schema.indexName.isSome ∧ j.accepted .aggregate = true ∧
      stagesBeforeFailure j.schema j.expr.stages.reverse = j.expr.stages.reverse) ∧
    ∃ j ∈ sampleJobs, j.action = .explain .aggregate ∧ ∀ s, (j.run s).counters = s.counters := by
  obtain ⟨-, haccepted, hexplain, hqueries, haggregations, hfailures, hskipped⟩ :=
    counters_runAll {} sampleJobs
  refine ⟨hqueries.trans rfl, haggregations.trans rfl, hfailures.trans rfl, hskipped.trans rfl,
    ⟨⟨.compile .aggregate, citySchema, {}, bareChain ["AsNoTracking", "Count", "ToList"]⟩, ?_⟩,
    ⟨⟨.explain .aggregate, citySchema, {}, bareChain ["AsNoTracking", "Take", "ToList"]⟩, ?_⟩⟩
  · exact ⟨by simp [sampleJobs], rfl, rfl, (haccepted _ rfl).mp rfl⟩
  · exact ⟨by simp [sampleJobs], rfl, fun s => hexplain _ .aggregate s rfl⟩

end IndexQuery
