/-
# Runs of reductions under a group

A chain may put any number of reductions right after a group, and they should all stand under it.
The compiler looks back one step only: a reduction is taken to have a group if the step before it is
a group or a reduction of a field alone.  Otherwise a group of all rows is put right behind it, and
whatever comes later falls under that one.

`divideRun` says how a run is divided: behind the first reduction that follows one with more than a
field, a new group begins.  The last group put in is empty if the run ends with it, and an empty
group is not written.  Hence the exact condition for one group (`compileAggregate_groupBy_run`):
every reduction, the last two aside, is of a field alone.
-/
import IndexQuery.Proofs.Aggregate.Reductions
import IndexQuery.Proofs.Chain

namespace IndexQuery

/-! ## 1. The stack of a run -/

/-- The steps of a run of reductions right after a group. -/
def runSteps : List Reduction → List Step
  | [] => []
  | [r] => [.reduce r]
  | r :: r' :: rest =>
    if r.isFieldOnly then .reduce r :: runSteps (r' :: rest)
    else .reduce r :: .reduce r' :: .groupBy [] :: runSteps rest

/-- **The stack after a run**, on a stack where a reduction has a group already. -/
theorem reverse_pushReduction_run (rs : List Reduction) :
    ∀ stack : List Step, Step.isGrouped stack = true →
      (rs.foldl (fun stack r => Step.pushReduction r stack) stack).reverse
        = stack.reverse ++ runSteps rs := by
  induction rs using runSteps.induct with
  | case1 =>
    intro stack _
    simp [runSteps]
  | case2 r =>
    intro stack hstack
    simp [runSteps, Step.pushReduction, hstack]
  | case3 r r' rest hfield ih =>
    intro stack hstack
    have hpush : Step.pushReduction r stack = .reduce r :: stack := if_pos hstack
    rw [List.foldl_cons, hpush, ih (.reduce r :: stack) hfield]
    simp [runSteps, hfield]
  | case4 r r' rest hfield ih =>
    intro stack hstack
    have hpush : Step.pushReduction r stack = .reduce r :: stack := if_pos hstack
    have hpush' : Step.pushReduction r' (.reduce r :: stack)
        = .groupBy [] :: .reduce r' :: .reduce r :: stack := if_neg hfield
    rw [List.foldl_cons, hpush, List.foldl_cons, hpush', ih _ rfl]
    simp [runSteps, hfield]

/-- A run of reduction stages goes through and changes the stack alone. -/
theorem AggregateDraft.run_reductions {schema : Schema} {settings : Settings} {stages : List Stage}
    {rs : List Reduction} (h : List.Forall₂ Stage.Reduces stages rs) :
    ∀ (d : AggregateDraft) (s : Session),
      run schema settings false stages d s
        = (.ok { d with stack := rs.foldl (fun stack r => Step.pushReduction r stack) d.stack }, s) := by
  induction h with
  | nil =>
    intro d s
    rfl
  | cons hstage _ ih =>
    intro d s
    simp only [run, hstage.ofStage schema]
    exact ih _ _

/-! ## 2. The groups of a run

A group that was put in takes the reductions behind it, so the run is cut behind each of those groups. -/

/-- **How a run is divided among groups.**  A reduction with more than a field is the last but one of
its group. -/
def divideRun : List Reduction → List (List Reduction)
  | [] => []
  | [r] => [[r]]
  | r :: r' :: rest =>
    if r.isFieldOnly then (divideRun (r' :: rest)).modifyHead (r :: ·)
    else [r, r'] :: divideRun rest

theorem exists_divideRun_eq_cons {rs : List Reduction} (hne : rs ≠ []) :
    ∃ part parts, divideRun rs = part :: parts := by
  induction rs using divideRun.induct with
  | case1 => exact absurd rfl hne
  | case2 r => exact ⟨[r], [], rfl⟩
  | case3 r r' rest hfield ih =>
    obtain ⟨part, parts, hparts⟩ := ih (by simp)
    exact ⟨r :: part, parts, by simp [divideRun, hfield, hparts]⟩
  | case4 r r' rest hfield _ => exact ⟨[r, r'], divideRun rest, by simp [divideRun, hfield]⟩

/-- The clauses of a divided run: the first part under the keys, every other under a group of all
rows. -/
def dividedClauses (keys : List String) : List (List Reduction) → List PipelineClause
  | [] => []
  | part :: parts => .group keys part :: parts.map (.group [])

theorem dividedClauses_nil (parts : List (List Reduction)) :
    dividedClauses [] parts = parts.map (.group []) := by
  cases parts <;> rfl

/-- **The clauses of a run**, after a group that holds some reductions already. -/
theorem clausesAfter_runSteps (rs : List Reduction) :
    ∀ (reduced : Bool) (keys : List String) (held : List Reduction), rs ≠ [] →
      clausesAfter (.group reduced keys held) (runSteps rs)
        = dividedClauses keys ((divideRun rs).modifyHead (held ++ ·)) := by
  induction rs using runSteps.induct with
  | case1 =>
    intro reduced keys held hne
    exact absurd rfl hne
  | case2 r =>
    intro reduced keys held _
    simp [runSteps, divideRun, clausesAfter, Pending.reduce, Pending.flush, Pending.isVoid,
      dividedClauses]
  | case3 r r' rest hfield ih =>
    intro reduced keys held _
    simp only [runSteps, divideRun, hfield, if_true, clausesAfter, Pending.reduce]
    rw [ih reduced keys (held ++ [r]) (by simp), List.modifyHead_modifyHead]
    simp [Function.comp_def]
  | case4 r r' rest hfield ih =>
    intro reduced keys held _
    have hflush : (Pending.group reduced keys (held ++ [r] ++ [r'])).flush
        = [.group keys (held ++ [r, r'])] := by
      simp [Pending.flush, Pending.isVoid]
    have hreduced : (Pending.group reduced keys (held ++ [r] ++ [r'])).reducedAfter = true := by
      simp [Pending.reducedAfter, Pending.isVoid]
    have hrest : clausesAfter (.group true [] []) (runSteps rest)
        = (divideRun rest).map (.group []) := by
      cases rest with
      | nil => rfl
      | cons x xs =>
        obtain ⟨part, parts, hparts⟩ := exists_divideRun_eq_cons (List.cons_ne_nil x xs)
        rw [ih true [] [] (by simp), dividedClauses_nil, hparts]
        rfl
    simp only [runSteps, divideRun, hfield, Bool.false_eq_true, if_false, clausesAfter,
      Pending.reduce]
    rw [hflush, hreduced, hrest]
    rfl

/-- No reduction is lost in dividing, and the order stays. -/
theorem flatten_divideRun (rs : List Reduction) : (divideRun rs).flatten = rs := by
  induction rs using divideRun.induct with
  | case1 => rfl
  | case2 r => rfl
  | case3 r r' rest hfield ih =>
    obtain ⟨part, parts, hparts⟩ := exists_divideRun_eq_cons (List.cons_ne_nil r' rest)
    rw [hparts] at ih
    simp only [divideRun, hfield, if_true, hparts, List.modifyHead_cons]
    simp [← ih]
  | case4 r r' rest hfield ih =>
    simp [divideRun, hfield, ih]

/-- **A run stays in one part** exactly if every reduction but the last two is of a field alone. -/
theorem tail_divideRun_eq_nil_iff (rs : List Reduction) :
    (divideRun rs).tail = [] ↔ ∀ r ∈ rs.dropLast.dropLast, r.isFieldOnly = true := by
  induction rs using divideRun.induct with
  | case1 => simp [divideRun]
  | case2 r => simp [divideRun]
  | case3 r r' rest hfield ih =>
    have htail : (divideRun (r :: r' :: rest)).tail = (divideRun (r' :: rest)).tail := by
      simp [divideRun, hfield]
    rw [htail, ih]
    cases rest with
    | nil => simp
    | cons x xs => simp [hfield]
  | case4 r r' rest hfield ih =>
    have htail : (divideRun (r :: r' :: rest)).tail = divideRun rest := by
      simp [divideRun, hfield]
    rw [htail]
    cases rest with
    | nil => simp [divideRun]
    | cons x xs =>
      obtain ⟨part, parts, hparts⟩ := exists_divideRun_eq_cons (List.cons_ne_nil x xs)
      simp [hfield, hparts]

/-! ## 3. The argument vector

Two divisions of a run could in principle be written alike.  They are not: a second group is seen from its
keyword. -/

/-- Parts under groups of their own do not read as one group. -/
theorem dividedClauses_args_iff (keys : List String) (part : List Reduction)
    (parts : List (List Reduction)) :
    (dividedClauses keys (part :: parts)).flatMap PipelineClause.args
        = (PipelineClause.group keys (part ++ parts.flatten)).args ↔ parts = [] := by
  constructor
  · intro h
    cases parts with
    | nil => rfl
    | cons next parts =>
      simp only [dividedClauses, List.map_cons, List.flatMap_cons, PipelineClause.args,
        List.flatMap_append, List.append_assoc, List.cons_append, List.cons.injEq,
        List.append_cancel_left_eq, true_and] at h
      -- the second group begins where the next reduction should
      cases hlater : (next :: parts).flatten with
      | nil => simp [hlater] at h
      | cons r rs => simp [hlater, Reduction.clauseArgs] at h
  · rintro rfl
    simp [dividedClauses]

/-- The reductions of a run of stages that all compile. -/
theorem exists_reductions {schema : Schema} {stages : List Stage}
    (h : ∀ stage ∈ stages, stage.name ∈ reductionNames ∧
      ∃ part, AggregatePart.ofStage schema false stage = .ok part) :
    ∃ rs, List.Forall₂ Stage.Reduces stages rs ∧
      rs.map Reduction.isFieldOnly
        = stages.map fun stage => (Reduction.fieldOnly? stage.name).isSome := by
  induction stages with
  | nil => exact ⟨[], .nil, rfl⟩
  | cons stage stages ih =>
    obtain ⟨hname, part, hpart⟩ := h stage (by simp)
    obtain ⟨r, hr, -⟩ := Stage.exists_reduces hname hpart
    obtain ⟨rs, hrs, hfields⟩ := ih fun stage hstage => h stage (by simp [hstage])
    refine ⟨r :: rs, .cons hr hrs, ?_⟩
    rw [List.map_cons, List.map_cons, hr.isFieldOnly, hfields]

/-- **The clauses of a run of reductions after a group.** -/
theorem compileAggregate_run_args {schema : Schema} {index : String} (settings : Settings)
    {root key : Expr} {keys : List String} {stages : List Stage} {rs : List Reduction}
    (hindex : schema.indexName = some index) (hroot : root.stages = [])
    (hkeys : key.resolveFields = .ok keys) (hrs : List.Forall₂ Stage.Reduces stages rs)
    (hne : rs ≠ []) (session : Session) :
    ∃ p, (compileAggregate schema settings (root.chainAll (⟨"GroupBy", [key]⟩ :: stages))
        session).1 = .ok p ∧
      p.args = index :: "*" :: (dividedClauses keys (divideRun rs)).flatMap PipelineClause.args := by
  have hstages : (root.chainAll (⟨"GroupBy", [key]⟩ :: stages)).stages.reverse
      = ⟨"GroupBy", [key]⟩ :: stages := by
    rw [Expr.stages_chainAll, hroot, List.append_nil, List.reverse_reverse]
  have hgroup : AggregatePart.ofStage schema true ⟨"GroupBy", [key]⟩
      = .ok (some (.group keys)) := by
    change (key.resolveFields >>= fun fields => pure (some (AggregatePart.group fields))) = _
    rw [hkeys]
    rfl
  have hgrouped : Step.isGrouped [.groupBy keys] = true := rfl
  refine ⟨⟨index, none, none, .groupBy keys :: runSteps rs⟩, ?_, ?_⟩
  · rw [compileAggregate, hindex, observed_fst, hstages]
    simp only [AggregateDraft.run, hgroup]
    rw [AggregateDraft.run_reductions hrs]
    simp only [AggregateDraft.add, Step.pushGroup, Except.map, AggregateDraft.plan,
      reverse_pushReduction_run rs _ hgrouped]
    rfl
  · obtain ⟨part, parts, hparts⟩ := exists_divideRun_eq_cons hne
    simp only [AggregatePlan.args, AggregatePlan.clauses, clausesAfter, Pending.flush,
      Pending.reducedAfter, clausesAfter_runSteps rs false keys [] hne]
    simp [hparts, optionalArgs]

theorem forall_mem_dropLast_dropLast {α : Type} (f : α → Bool) (l : List α) :
    (∀ a ∈ l.dropLast.dropLast, f a = true) ↔
      ∀ b ∈ (l.map f).dropLast.dropLast, b = true := by
  rw [← List.map_dropLast, ← List.map_dropLast, List.forall_mem_map]

/-- **A run of reductions stays under its group** exactly if every stage of it, the last two aside,
reduces a field alone. -/
theorem compileAggregate_groupBy_run (schema : Schema) (settings : Settings) (session : Session)
    (root key : Expr) (stages : List Stage) {index : String} {keys : List String}
    (hindex : schema.indexName = some index) (hroot : root.stages = [])
    (hkeys : key.resolveFields = .ok keys) (hne : stages ≠ [])
    (hrun : ∀ stage ∈ stages, stage.name ∈ reductionNames ∧
      ∃ part, AggregatePart.ofStage schema false stage = .ok part) :
    ∃ rs p, List.Forall₂ Stage.Reduces stages rs ∧
      (compileAggregate schema settings (root.chainAll (⟨"GroupBy", [key]⟩ :: stages))
        session).1 = .ok p ∧
      (p.args = index :: "*" :: "GROUPBY" :: Nat.repr keys.length ::
          (keys.map ("@" ++ ·) ++ rs.flatMap Reduction.clauseArgs) ↔
        ∀ stage ∈ stages.dropLast.dropLast, (Reduction.fieldOnly? stage.name).isSome = true) := by
  obtain ⟨rs, hrs, hfields⟩ := exists_reductions hrun
  have hrsne : rs ≠ [] := by
    rintro rfl
    exact hne (List.forall₂_nil_right_iff.mp hrs)
  obtain ⟨p, hp, hargs⟩ := compileAggregate_run_args settings hindex hroot hkeys hrs hrsne session
  refine ⟨rs, p, hrs, hp, ?_⟩
  obtain ⟨part, parts, hparts⟩ := exists_divideRun_eq_cons hrsne
  have hflatten : part ++ parts.flatten = rs := by
    rw [← flatten_divideRun rs, hparts, List.flatten_cons]
  have hcondition : (∀ r ∈ rs.dropLast.dropLast, r.isFieldOnly = true) ↔
      ∀ stage ∈ stages.dropLast.dropLast, (Reduction.fieldOnly? stage.name).isSome = true := by
    rw [forall_mem_dropLast_dropLast, hfields, ← forall_mem_dropLast_dropLast]
  have hone : (dividedClauses keys (divideRun rs)).flatMap PipelineClause.args
      = (PipelineClause.group keys rs).args ↔ (divideRun rs).tail = [] := by
    rw [hparts, ← hflatten]
    exact dividedClauses_args_iff keys part parts
  rw [← hcondition, ← tail_divideRun_eq_nil_iff, ← hone, hargs]
  simp [PipelineClause.args]

/-- A count before the last two reductions of a run. -/
def countSumMax : List Stage :=
  [⟨"Count", []⟩, ⟨"Sum", [.member "age"]⟩, ⟨"Max", [.member "age"]⟩]

theorem compileAggregate_groupBy_run_countSumMax :
    (∀ stage ∈ countSumMax, stage.name ∈ reductionNames ∧
      ∃ part, AggregatePart.ofStage (.declare (some "people")) false stage = .ok part) ∧
    ∃ rs p, List.Forall₂ Stage.Reduces countSumMax rs ∧
      (compileAggregate (.declare (some "people")) {}
        ((Expr.constant (.str "people")).chainAll (⟨"GroupBy", [.member "city"]⟩ :: countSumMax))
        {}).1 = .ok p ∧
      p.args ≠ "people" :: "*" :: "GROUPBY" :: "1" :: "@city" ::
        rs.flatMap Reduction.clauseArgs := by
  have hrun : ∀ stage ∈ countSumMax, stage.name ∈ reductionNames ∧
      ∃ part, AggregatePart.ofStage (.declare (some "people")) false stage = .ok part := by
    intro stage hstage
    simp only [countSumMax, List.mem_cons, List.not_mem_nil, or_false] at hstage
    rcases hstage with rfl | rfl | rfl
    · exact ⟨by decide, _, rfl⟩
    · exact ⟨by decide, _, rfl⟩
    · exact ⟨by decide, _, rfl⟩
  obtain ⟨rs, p, hrs, hp, hiff⟩ := compileAggregate_groupBy_run (.declare (some "people")) {} {}
    (.constant (.str "people")) (.member "city") countSumMax rfl rfl rfl (List.cons_ne_nil _ _) hrun
  refine ⟨hrun, rs, p, hrs, hp, ?_⟩
  intro hargs
  have hcount := hiff.mp hargs ⟨"Count", []⟩ (List.mem_cons_self)
  exact absurd hcount (by decide)

end IndexQuery
