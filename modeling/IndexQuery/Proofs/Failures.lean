/-
# Which failure a chain reports

Several stages of a chain may fail, and a compile reports one of them.  Each stage has a verdict of
its own: it depends on the stage and the schema, and for a `Where` of an aggregation on whether it
stands innermost, but on no other stage.  A search walks its chain from the outside in, so it reports
the stage chained last among those that fail, also one whose part of the plan another stage would have
set.  An aggregation walks from the inside out and reports the stage chained first.

Both are the same fact about a walk that stops at the first failure (`ReportsFirst`), read off in the
two directions (`compile_reportsFirst`).
-/
import IndexQuery.Proofs.Session.Accounting

namespace IndexQuery

/-! ## 1. Verdicts -/

/-- The stages of a search. -/
def searchNames : List String :=
  ["Where", "Select", "Take", "Skip", "GeoFilter"] ++ sortNames ++ singleNames

/-- **The verdict on a stage of a search**: the error that it fails with, if it fails. -/
def searchVerdict (schema : Schema) (s : Stage) : Option CompileError :=
  (SearchPart.ofStage schema s).error?

/-- **The verdict on a stage of an aggregation** at its place, places counted from the source. -/
def aggregateVerdict (schema : Schema) (placed : Stage × Nat) : Option CompileError :=
  (AggregatePart.ofStage schema (placed.2 == 0) placed.1).error?

/-- A search has no stages but those of its table. -/
theorem searchVerdict_of_not_mem {schema : Schema} {s : Stage} (hname : s.name ∉ searchNames) :
    searchVerdict schema s = some (.unsupportedOperator s.name) := by
  have hne : ∀ name ∈ searchNames, s.name ≠ name := fun name hmem heq => hname (heq ▸ hmem)
  unfold searchVerdict SearchPart.ofStage
  split
  iterate 10
    next heq => exact absurd heq (hne _ (by decide))
  rfl

theorem aggregateVerdict_of_not_mem {schema : Schema} {placed : Stage × Nat}
    (hname : placed.1.name ∉ aggregateNames) : aggregateVerdict schema placed = none := by
  rw [aggregateVerdict, AggregatePart.ofStage_of_not_mem hname]
  rfl

/-- Only of a `Where` it matters where it stands, and only whether it stands innermost. -/
theorem aggregateVerdict_congr {schema : Schema} {s : Stage} {n m : Nat}
    (h : s.name = "Where" → (n = 0 ↔ m = 0)) :
    aggregateVerdict schema (s, n) = aggregateVerdict schema (s, m) := by
  unfold aggregateVerdict
  by_cases hname : s.name = "Where"
  · have hplace : (n == 0) = (m == 0) := Bool.eq_iff_iff.mpr (by simpa using h hname)
    rw [hplace]
  · rw [AggregatePart.ofStage_of_ne_where hname]
    exact congrArg Compiled.error? (AggregatePart.ofStage_of_ne_where hname).symm

/-! ## 2. Walks that stop at the first failure -/

/-- **A walk that reports the first failure**: it fails exactly if some verdict is an error, and its
error is that of the first one that is. -/
structure ReportsFirst {α β : Type} (verdict : α → Option CompileError) (walk : List α)
    (result : Compiled β) : Prop where
  fails : (∃ e, result = .error e) ↔ ∃ x ∈ walk, verdict x ≠ none
  first : ∀ e, result = .error e ↔ ∃ before x after,
    walk = before ++ x :: after ∧ verdict x = some e ∧ ∀ y ∈ before, verdict y = none

theorem reportsFirst_of_error? {α β : Type} {verdict : α → Option CompileError} {walk : List α}
    {result : Compiled β} (h : result.error? = walk.findSome? verdict) :
    ReportsFirst verdict walk result := by
  have hfirst (e : CompileError) : result = .error e ↔ walk.findSome? verdict = some e := by
    rw [← h, Compiled.error?_eq_some_iff]
  refine ⟨?_, fun e => (hfirst e).trans List.findSome?_eq_some_iff⟩
  constructor
  · rintro ⟨e, he⟩
    obtain ⟨before, x, after, rfl, hx, -⟩ := List.findSome?_eq_some_iff.mp ((hfirst e).mp he)
    exact ⟨x, by simp, by simp [hx]⟩
  · rintro ⟨x, hx, hfails⟩
    have hsome : walk.findSome? verdict ≠ none := fun hnone =>
      hfails (List.findSome?_eq_none_iff.mp hnone x hx)
    obtain ⟨e, he⟩ := Option.ne_none_iff_exists'.mp hsome
    exact ⟨e, (hfirst e).mpr he⟩

/-! ## 3. Chains -/

/-- The failure of a search is the first one from the outside in. -/
theorem error?_compileSearch {schema : Schema} (settings : Settings) {e : Expr} (session : Session)
    (hindex : schema.indexName.isSome) (he : e.shape ≠ .lambda) :
    (compileSearch schema settings e session).1.error?
      = e.stages.findSome? (searchVerdict schema) := by
  obtain ⟨index, hindex⟩ := Option.isSome_iff_exists.mp hindex
  rw [compileSearch_fst, hindex, Option.elim_some, SearchPlan.ofExpr, Compiled.error?_map,
    SearchDraft.ofExpr_of_shape he, Compiled.error?_map, Compiled.error?_mapM]
  rfl

/-- Stages innermost first report the first failure; `n` is the place of the first one. -/
theorem AggregatePart.error?_ofStages (schema : Schema) (stages : List Stage) (n : Nat) :
    (ofStages schema (n == 0) stages).error?
      = (stages.zipIdx n).findSome? (aggregateVerdict schema) := by
  induction stages generalizing n with
  | nil => rfl
  | cons s stages ih =>
    have hrest : ofStages schema false stages = ofStages schema (n + 1 == 0) stages := rfl
    rw [ofStages, hrest, List.zipIdx_cons, List.findSome?_cons, ← ih, aggregateVerdict]
    cases ofStage schema (n == 0) s with
    | error e => rfl
    | ok part => exact Compiled.error?_bind_pure _ _

/-- The failure of an aggregation is the first one from the inside out. -/
theorem error?_compileAggregate {schema : Schema} (settings : Settings) (e : Expr)
    (session : Session) (hindex : schema.indexName.isSome) :
    (compileAggregate schema settings e session).1.error?
      = e.stages.reverse.zipIdx.findSome? (aggregateVerdict schema) := by
  obtain ⟨index, hindex⟩ := Option.isSome_iff_exists.mp hindex
  rw [compileAggregate_fst, hindex, Option.elim_some, Compiled.error?_map]
  exact AggregatePart.error?_ofStages schema e.stages.reverse 0

/-- **Which failure a chain reports.**  Without an index every compile fails for that reason.  With
one, a search of at least one stage reports the outermost stage that fails and an aggregation the
innermost, and neither fails otherwise.  The verdicts are those of the single stages: a name outside
the table is an error in a search and none in an aggregation, and only for a `Where` of an aggregation
it matters whether it stands innermost. -/
theorem compile_reportsFirst (schema : Schema) (settings : Settings) (session : Session) :
    (schema.indexName = none → ∀ e : Expr,
      (compileSearch schema settings e session).1 = .error .missingIndex ∧
      (compileAggregate schema settings e session).1 = .error .missingIndex) ∧
    (schema.indexName.isSome → ∀ (root : Expr) (stages : List Stage), root.shape ≠ .call →
      stages ≠ [] →
      ReportsFirst (searchVerdict schema) stages.reverse
        (compileSearch schema settings (root.chainAll stages) session).1 ∧
      ReportsFirst (aggregateVerdict schema) stages.zipIdx
        (compileAggregate schema settings (root.chainAll stages) session).1) ∧
    (∀ s : Stage, s.name ∉ searchNames →
      searchVerdict schema s = some (.unsupportedOperator s.name)) ∧
    (∀ placed : Stage × Nat, placed.1.name ∉ aggregateNames →
      aggregateVerdict schema placed = none) ∧
    ∀ (s : Stage) (n m : Nat), (s.name = "Where" → (n = 0 ↔ m = 0)) →
      aggregateVerdict schema (s, n) = aggregateVerdict schema (s, m) := by
  refine ⟨?_, ?_, fun s => searchVerdict_of_not_mem, fun placed => aggregateVerdict_of_not_mem,
    fun s n m => aggregateVerdict_congr⟩
  · intro hindex e
    rw [compileSearch_fst, compileAggregate_fst, hindex]
    exact ⟨rfl, rfl⟩
  · intro hindex root stages hroot hne
    have hstages : (root.chainAll stages).stages = stages.reverse :=
      Expr.stages_chainAll_of_root hroot stages
    have hshape : (root.chainAll stages).shape ≠ .lambda :=
      Expr.shape_chainAll_ne_lambda fun hnil => absurd hnil hne
    constructor
    · apply reportsFirst_of_error?
      rw [error?_compileSearch settings session hindex hshape, hstages]
    · apply reportsFirst_of_error?
      rw [error?_compileAggregate settings _ session hindex, hstages, List.reverse_reverse]

/-- A count that is no number, a sort key that is missing, and a sort key that would have replaced
it. -/
def faultyChain : List Stage :=
  [⟨"Take", [.constant (.str "ten")]⟩, ⟨"OrderBy", []⟩, ⟨"OrderBy", [.member "age"]⟩]

theorem compile_reportsFirst_faultyChain :
    citySchema.indexName.isSome = true ∧
    (compileSearch citySchema {} ((Expr.constant (.str "people")).chainAll faultyChain) {}).1
      = .error (.invalidArgument "OrderBy" (.missing 1)) ∧
    (compileAggregate citySchema {} ((Expr.constant (.str "people")).chainAll faultyChain) {}).1
      = .error (.invalidArgument "Take" .notCount) ∧
    (compileSearch (.declare none) {} ((Expr.constant (.str "people")).chainAll faultyChain) {}).1
      = .error .missingIndex ∧
    searchVerdict citySchema asNoTracking = some (.unsupportedOperator "AsNoTracking") ∧
    aggregateVerdict citySchema (asNoTracking, 0) = none ∧
    aggregateVerdict bioSchema (bioEnds, 2) = aggregateVerdict bioSchema (bioEnds, 1) := by
  obtain ⟨-, hchain, hsearch, haggregate, -⟩ := compile_reportsFirst citySchema {} {}
  obtain ⟨houter, hinner⟩ := hchain rfl (.constant (.str "people")) faultyChain (by decide)
    (List.cons_ne_nil _ _)
  refine ⟨rfl, ?_, ?_, ?_, hsearch asNoTracking (by decide),
    haggregate (asNoTracking, 0) (by decide), ?_⟩
  · rw [houter.first]
    exact ⟨[⟨"OrderBy", [.member "age"]⟩], ⟨"OrderBy", []⟩, [⟨"Take", [.constant (.str "ten")]⟩],
      rfl, rfl, by simp [searchVerdict]; rfl⟩
  · rw [hinner.first]
    exact ⟨[], (⟨"Take", [.constant (.str "ten")]⟩, 0), _, rfl, rfl, by simp⟩
  · exact ((compile_reportsFirst (.declare none) {} {}).1 rfl _).1
  · exact (compile_reportsFirst bioSchema {} {}).2.2.2.2 bioEnds 2 1 (by simp)

end IndexQuery
