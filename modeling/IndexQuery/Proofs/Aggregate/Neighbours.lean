/-
# Every reduction has a group next to it

A reduction needs a group, and in the argument vector reductions that find none get a group of all rows
(`Pending.flush`).  The steps that the compiler makes never come to that.  A reduction is pushed on a
group, on a reduction of a field alone, or gets a group of its own right behind it.  So a run of
reductions stands behind a group, or it is a single reduction with a group behind it.

This cannot be read off the step before, since a reduction of a field alone counts as one with a group.
The invariant is about the whole stack (`Step.Settled`): a run on top of it has a group at its bottom.
-/
import IndexQuery.Proofs.Aggregate.Arrangement
import IndexQuery.Proofs.Aggregate.Segments
import Mathlib.Data.List.Chain

namespace IndexQuery

/-! ## 1. Runs and groups -/

namespace Step

/-- A reduction. -/
def isReduce : Step → Bool
  | reduce _ => true
  | _ => false

/-- A group comes last. -/
def endsGroup (steps : List Step) : Bool :=
  steps.getLast?.any isGroup

/-- A reduction comes last. -/
def endsReduce (steps : List Step) : Bool :=
  steps.getLast?.any isReduce

theorem startsGroup_eq_any (steps : List Step) : startsGroup steps = steps.head?.any isGroup := by
  cases steps with
  | nil => rfl
  | cons step steps => cases step <;> rfl

theorem startsReduce_eq_any (steps : List Step) : startsReduce steps = steps.head?.any isReduce := by
  cases steps with
  | nil => rfl
  | cons step steps => cases step <;> rfl

theorem startsGroup_reverse (steps : List Step) : startsGroup steps.reverse = endsGroup steps := by
  rw [startsGroup_eq_any, List.head?_reverse, endsGroup]

theorem startsReduce_reverse (steps : List Step) : startsReduce steps.reverse = endsReduce steps := by
  rw [startsReduce_eq_any, List.head?_reverse, endsReduce]

theorem endsGroup_reverse (steps : List Step) : endsGroup steps.reverse = startsGroup steps := by
  rw [← startsGroup_reverse, List.reverse_reverse]

theorem endsReduce_reverse (steps : List Step) : endsReduce steps.reverse = startsReduce steps := by
  rw [← startsReduce_reverse, List.reverse_reverse]

end Step

/-- **A run of reductions**: all of them between two other steps, or up to an end. -/
structure ReductionRun (steps before : List Step) (run : List Reduction) (after : List Step) :
    Prop where
  split : steps = before ++ run.map Step.reduce ++ after
  nonempty : run ≠ []
  left : Step.endsReduce before = false
  right : Step.startsReduce after = false

/-- A run has its group: right before it, or it is one reduction with a group right behind it. -/
def RunGrouped (before : List Step) (run : List Reduction) (after : List Step) : Prop :=
  Step.endsGroup before = true ∨ run.length = 1 ∧ Step.startsGroup after = true

/-! ## 2. The stack -/

namespace Step

/-- **A stack on which every reduction has a group**, the last step on top.  A reduction may lie on a
group or on another reduction; on anything else a group lies on it. -/
inductive Settled : List Step → Prop
  | nil : Settled []
  | alone {step : Step} {stack : List Step} : step.isAlone = true → Settled stack →
      Settled (step :: stack)
  | group {keys : List String} {stack : List Step} : startsGroup stack = false → Settled stack →
      Settled (groupBy keys :: stack)
  | reduce {r : Reduction} {stack : List Step} : startsGroup stack = true ∨ startsReduce stack = true →
      Settled stack → Settled (reduce r :: stack)
  | covered {keys : List String} {r : Reduction} {stack : List Step} : startsGroup stack = false →
      startsReduce stack = false → Settled stack → Settled (groupBy keys :: .reduce r :: stack)

theorem Settled.regroup {keys : List String} {stack : List Step} (h : Settled (groupBy keys :: stack))
    (keys' : List String) : Settled (groupBy keys' :: stack) := by
  cases h with
  | alone halone _ => cases halone
  | group hgroup hstack => exact .group hgroup hstack
  | covered hgroup hreduce hstack => exact .covered hgroup hreduce hstack

theorem startsGroup_eq_true_iff {stack : List Step} :
    startsGroup stack = true ↔ ∃ keys rest, stack = groupBy keys :: rest := by
  unfold startsGroup
  split <;> simp_all

theorem startsGroup_or_of_isGrouped {stack : List Step} (h : isGrouped stack = true) :
    startsGroup stack = true ∨ startsReduce stack = true := by
  unfold isGrouped at h
  split at h
  · exact .inl rfl
  · exact .inr rfl
  · cases h

theorem not_startsGroup_of_isGrouped {stack : List Step} (h : isGrouped stack = false) :
    startsGroup stack = false := by
  unfold isGrouped at h
  unfold startsGroup
  split <;> simp_all

/-- **One step keeps every reduction with a group.** -/
theorem Settled.push {stack : List Step} (h : Settled stack) (step : Step) :
    Settled (push stack step) := by
  cases step with
  | groupBy keys =>
    by_cases hgroup : startsGroup stack = true
    · obtain ⟨existing, rest, rfl⟩ := startsGroup_eq_true_iff.mp hgroup
      exact h.regroup (keys ++ existing)
    · rw [Bool.not_eq_true] at hgroup
      have hpush : pushGroup keys stack = groupBy keys :: stack := by
        refine pushGroup_of_head? (fun top htop => ?_) keys
        simpa [startsGroup_eq_any, Option.mem_def.mp htop] using hgroup
      rw [Step.push, hpush]
      exact .group hgroup h
  | reduce r =>
    rw [Step.push, pushReduction]
    by_cases hgrouped : isGrouped stack = true
    · rw [if_pos hgrouped]
      exact .reduce (startsGroup_or_of_isGrouped hgrouped) h
    · rw [if_neg hgrouped]
      rw [Bool.not_eq_true] at hgrouped
      -- under a reduction with more than a field the run goes on, and the group on top ends it
      by_cases hreduce : startsReduce stack = true
      · exact .group rfl (.reduce (.inr hreduce) h)
      · exact .covered (not_startsGroup_of_isGrouped hgrouped) (by simpa using hreduce) h
  | sortBy key => exact .alone rfl h
  | apply expr label => exact .alone rfl h
  | filter expr => exact .alone rfl h

/-- **So do all steps of a chain.** -/
theorem Settled.foldl_push {stack : List Step} (h : Settled stack) (steps : List Step) :
    Settled (steps.foldl Step.push stack) := by
  induction steps generalizing stack with
  | nil => exact h
  | cons step steps ih => exact ih (h.push step)

/-! ## 3. What a settled stack looks like -/

/-- No group lies on a group. -/
theorem Settled.isChain {stack : List Step} (h : Settled stack) :
    stack.IsChain fun upper lower => ¬ (upper.isGroup = true ∧ lower.isGroup = true) := by
  induction h with
  | nil => exact .nil
  | @alone step stack halone _ ih =>
    refine ih.cons fun lower _ => ?_
    rintro ⟨hgroup, -⟩
    cases step <;> simp [isAlone, clause?, isGroup] at halone hgroup
  | @group keys stack hgroup _ ih =>
    refine ih.cons fun lower hlower => ?_
    rintro ⟨-, hlower'⟩
    simp [startsGroup_eq_any, Option.mem_def.mp hlower, hlower'] at hgroup
  | reduce _ _ ih => exact ih.cons fun _ _ => by simp [isGroup]
  | covered _ _ _ ih =>
    refine (ih.cons fun _ _ => ?_).cons fun lower hlower => ?_
    · simp [isGroup]
    · cases hlower
      simp [isGroup]

end Step

/-- A run that begins with the first step. -/
theorem ReductionRun.exists_cons {step : Step} {steps after : List Step} {run : List Reduction}
    (h : ReductionRun (step :: steps) [] run after) :
    ∃ r rest, step = .reduce r ∧ run = r :: rest ∧ steps = rest.map Step.reduce ++ after := by
  obtain ⟨r, rest, rfl⟩ := List.exists_cons_of_ne_nil h.nonempty
  have hsplit := h.split
  simp only [List.nil_append, List.map_cons, List.cons_append, List.cons.injEq] at hsplit
  exact ⟨r, rest, hsplit.1, rfl, hsplit.2⟩

/-- A run that begins later is one of the other steps. -/
theorem ReductionRun.tail {step first : Step} {steps before after : List Step}
    {run : List Reduction} (h : ReductionRun (step :: steps) (first :: before) run after) :
    ReductionRun steps before run after := by
  obtain ⟨hsplit, hne, hleft, hright⟩ := h
  refine ⟨(List.cons.inj hsplit).2, hne, ?_, hright⟩
  cases before with
  | nil => rfl
  | cons second before => simpa [Step.endsReduce] using hleft

namespace Step

theorem endsGroup_cons {steps : List Step} (h : endsGroup steps = true) (step : Step) :
    endsGroup (step :: steps) = true := by
  cases steps with
  | nil => cases h
  | cons first steps => simpa [endsGroup] using h

/-- A step above a run leaves its group where it is. -/
theorem startsGroup_or_cons {above below : List Step} {run : List Reduction}
    (h : startsGroup below = true ∨ run.length = 1 ∧ endsGroup above = true) (first : Step) :
    startsGroup below = true ∨ run.length = 1 ∧ endsGroup (first :: above) = true := by
  rcases h with hbelow | ⟨hone, habove⟩
  · exact .inl hbelow
  · exact .inr ⟨hone, endsGroup_cons habove first⟩

/-- **A run on a settled stack has its group**, below it or, if it is a single reduction, on it.  By
induction on the stack: what lies above the run does not matter, and at its top the run gets
shorter. -/
theorem Settled.run {stack : List Step} (h : Settled stack) :
    ∀ {above below : List Step} {run : List Reduction}, ReductionRun stack above run below →
      startsGroup below = true ∨ run.length = 1 ∧ endsGroup above = true := by
  induction h with
  | nil =>
    intro above below run hrun
    have hsplit := hrun.split
    simp [hrun.nonempty] at hsplit
  | @alone step stack halone _ ih =>
    intro above below run hrun
    cases above with
    | nil =>
      obtain ⟨r, rest, rfl, -, -⟩ := hrun.exists_cons
      cases halone
    | cons first above => exact startsGroup_or_cons (ih hrun.tail) first
  | group _ _ ih =>
    intro above below run hrun
    cases above with
    | nil =>
      obtain ⟨r, rest, hstep, -, -⟩ := hrun.exists_cons
      cases hstep
    | cons first above => exact startsGroup_or_cons (ih hrun.tail) first
  | @reduce r stack hbelow _ ih =>
    intro above below run hrun
    cases above with
    | nil =>
      obtain ⟨r', rest, -, rfl, rfl⟩ := hrun.exists_cons
      have hright := hrun.right
      by_cases hrest : rest = []
      · subst hrest
        left
        simpa [hright] using hbelow
      · have hrest' : ReductionRun (rest.map Step.reduce ++ below) [] rest below :=
          ⟨rfl, hrest, rfl, hright⟩
        rcases ih hrest' with hgroup | ⟨-, hnone⟩
        · exact .inl hgroup
        · cases hnone
    | cons first above => exact startsGroup_or_cons (ih hrun.tail) first
  | @covered keys r stack _ hreduce _ ih =>
    intro above below run hrun
    cases above with
    | nil =>
      obtain ⟨r', rest, hstep, -, -⟩ := hrun.exists_cons
      cases hstep
    | cons first above =>
      cases above with
      | nil =>
        obtain ⟨r', rest, -, rfl, rfl⟩ := hrun.tail.exists_cons
        have hrest : rest = [] := by
          by_contra hne
          obtain ⟨r'', rest, rfl⟩ := List.exists_cons_of_ne_nil hne
          cases hreduce
        have hfirst : first = groupBy keys := (List.cons.inj hrun.split).1.symm
        exact .inr ⟨by simp [hrest], by simp [hfirst, endsGroup, isGroup]⟩
      | cons second above =>
        exact startsGroup_or_cons (startsGroup_or_cons (ih hrun.tail.tail) second) first

end Step

/-- **The steps of a settled stack, in order.** -/
theorem ReductionRun.grouped {stack before after : List Step} {run : List Reduction}
    (hstack : Step.Settled stack) (h : ReductionRun stack.reverse before run after) :
    RunGrouped before run after := by
  obtain ⟨hsplit, hne, hleft, hright⟩ := h
  have hturned : ReductionRun stack after.reverse run.reverse before.reverse := by
    refine ⟨?_, by simpa using hne, ?_, ?_⟩
    · rw [← List.reverse_reverse stack, hsplit]
      simp
    · rw [Step.endsReduce_reverse, hright]
    · rw [Step.startsReduce_reverse, hleft]
  have hrun := hstack.run hturned
  rw [Step.startsGroup_reverse, Step.endsGroup_reverse, List.length_reverse] at hrun
  exact hrun

/-! ## 4. The walk -/

/-- What is written for what was held back, with `invent` for reductions that found no group. -/
def Pending.flushWith (invent : List Reduction → List PipelineClause) : Pending → List PipelineClause
  | loose reductions => invent reductions
  | held => held.flush

/-- **The walk over the steps with the branch for reductions without a group left open**: whatever
clauses `invent` gives are written there.  The group of all rows makes it the walk of the argument
vector (`clausesWith_group`). -/
def clausesWith (invent : List Reduction → List PipelineClause) (held : Pending) :
    List Step → List PipelineClause
  | [] => held.flushWith invent
  | .groupBy fields :: rest =>
    match held with
    | .loose reductions => clausesWith invent (.group true fields reductions) rest
    | held => held.flush ++ clausesWith invent (.group held.reducedAfter fields []) rest
  | .reduce r :: rest => clausesWith invent (held.reduce r) rest
  | .sortBy key :: rest => held.flushWith invent ++ .sort key :: clausesWith invent (.none false) rest
  | .apply expr label :: rest =>
    held.flushWith invent ++ .apply expr label :: clausesWith invent (.none false) rest
  | .filter expr :: rest =>
    held.flushWith invent ++ .filter expr :: clausesWith invent (.none false) rest

theorem Pending.flushWith_group (held : Pending) :
    held.flushWith (fun reductions => [.group [] reductions]) = held.flush := by
  cases held <;> rfl

theorem clausesWith_group (steps : List Step) :
    ∀ held, clausesWith (fun reductions => [.group [] reductions]) held steps
      = clausesAfter held steps := by
  induction steps with
  | nil => exact Pending.flushWith_group
  | cons step steps ih =>
    intro held
    cases step with
    | groupBy fields => cases held <;> simp only [clausesWith, clausesAfter, ih]
    | reduce r => exact ih (held.reduce r)
    | sortBy _ | apply _ _ | filter _ =>
      simp only [clausesWith, clausesAfter, Pending.flushWith_group, ih]

/-- What the steps behind the walk are, by what it holds back.  Reductions without a group are all
that came after some step that is no group. -/
inductive Behind : List Step → Pending → Prop
  | none {done : List Step} {reduced : Bool} : Step.endsGroup done = false →
      Step.endsReduce done = false → Behind done (.none reduced)
  | loose {before : List Step} {run : List Reduction} : run ≠ [] → Step.endsGroup before = false →
      Step.endsReduce before = false → Behind (before ++ run.map Step.reduce) (.loose run)
  | group {done : List Step} {reduced : Bool} {fields : List String} {reductions : List Reduction} :
      Behind done (.group reduced fields reductions)

/-- One more reduction behind the walk. -/
theorem Behind.reduce {done : List Step} {held : Pending} (h : Behind done held) (r : Reduction) :
    Behind (done ++ [.reduce r]) (held.reduce r) := by
  cases h with
  | none hgroup hreduce => exact .loose (List.cons_ne_nil r []) hgroup hreduce
  | @loose before run hne hgroup hreduce =>
    have hdone : before ++ run.map Step.reduce ++ [Step.reduce r]
        = before ++ (run ++ [r]).map Step.reduce := by simp
    rw [hdone]
    exact .loose (by simp) hgroup hreduce
  | group => exact .group

/-- A step on its own behind the walk. -/
theorem Behind.alone {step : Step} (h : step.isAlone = true) (done : List Step) :
    Behind (done ++ [step]) (.none false) := by
  refine .none ?_ ?_ <;> cases step <;> simp_all [Step.endsGroup, Step.endsReduce, Step.isGroup,
    Step.isReduce, Step.isAlone, Step.clause?]

/-- Where the run that is held back ends and no group follows, it had one before. -/
theorem Behind.flushWith {done steps : List Step} {held : Pending} (h : Behind done held)
    (hruns : ∀ before run after, ReductionRun (done ++ steps) before run after →
      RunGrouped before run after)
    (hreduce : Step.startsReduce steps = false) (hgroup : Step.startsGroup steps = false)
    (invent invent' : List Reduction → List PipelineClause) :
    held.flushWith invent = held.flushWith invent' := by
  cases h with
  | none => rfl
  | group => rfl
  | @loose before run hne hbefore hleft =>
    rcases hruns before run steps ⟨rfl, hne, hleft, hreduce⟩ with hends | ⟨-, hstarts⟩
    · rw [hbefore] at hends
      cases hends
    · rw [hgroup] at hstarts
      cases hstarts

/-- **Steps with a group at every run never come to the open branch**, so it makes no difference what
is written there.  By induction on the steps ahead, with those behind as far as the walk needs them. -/
theorem clausesWith_eq_clausesWith (invent invent' : List Reduction → List PipelineClause)
    (steps : List Step) :
    ∀ {done : List Step} {held : Pending}, Behind done held →
      (∀ before run after, ReductionRun (done ++ steps) before run after →
        RunGrouped before run after) →
      clausesWith invent held steps = clausesWith invent' held steps := by
  induction steps with
  | nil =>
    intro done held hbehind hruns
    exact hbehind.flushWith hruns rfl rfl invent invent'
  | cons step steps ih =>
    intro done held hbehind hruns
    have hmoved : ∀ before run after, ReductionRun (done ++ [step] ++ steps) before run after →
        RunGrouped before run after := by
      rw [List.append_assoc]
      exact hruns
    cases step with
    | groupBy fields =>
      have hafter : ∀ reduced reductions,
          clausesWith invent (.group reduced fields reductions) steps
            = clausesWith invent' (.group reduced fields reductions) steps :=
        fun reduced reductions => ih .group hmoved
      cases held <;> simp only [clausesWith, hafter]
    | reduce r => exact ih (hbehind.reduce r) hmoved
    | sortBy _ | apply _ _ | filter _ =>
      have hflush := hbehind.flushWith hruns rfl rfl invent invent'
      simp only [clausesWith, hflush, ih (.alone rfl done) hmoved]

-- a reduction on its own, as no chain gives it, does come to that branch
example (invent : List Reduction → List PipelineClause) (r : Reduction) :
    clausesWith invent (.none false) [.reduce r] = invent [r] := rfl

/-! ## 5. Plans -/

theorem compileAggregate_settled {schema : Schema} {settings : Settings} {session : Session} {e : Expr}
    {p : AggregatePlan} (h : (compileAggregate schema settings e session).1 = .ok p) :
    ∃ stack, Step.Settled stack ∧ p.steps = stack.reverse := by
  obtain ⟨index, -, parts, -, rfl⟩ := compileAggregate_eq_ok.mp h
  refine ⟨(parts.foldl (AggregateDraft.add settings) {}).stack, ?_, rfl⟩
  rw [AggregateDraft.stack_foldl_add]
  exact Step.Settled.nil.foldl_push _

/-- **Every reduction of a plan has a group next to it.**  No group follows a group.  A run of
reductions stands right behind a group, or it is one reduction with a group right behind it.  So the
clauses of the argument vector are the same whatever is written for reductions that find no group:
that branch is never taken. -/
theorem compileAggregate_runs_grouped (schema : Schema) (settings : Settings) (session : Session)
    (e : Expr) {p : AggregatePlan} (h : (compileAggregate schema settings e session).1 = .ok p) :
    (p.steps.IsChain fun step next => ¬ (step.isGroup = true ∧ next.isGroup = true)) ∧
    (∀ before run after, ReductionRun p.steps before run after → RunGrouped before run after) ∧
    ∀ invent : List Reduction → List PipelineClause,
      clausesWith invent (.none false) p.steps = p.clauses := by
  obtain ⟨stack, hstack, hsteps⟩ := compileAggregate_settled h
  have hruns : ∀ before run after, ReductionRun p.steps before run after →
      RunGrouped before run after := by
    intro before run after hrun
    rw [hsteps] at hrun
    exact hrun.grouped hstack
  refine ⟨?_, hruns, fun invent => ?_⟩
  · rw [hsteps, List.isChain_reverse]
    exact hstack.isChain.imp fun _ _ hne hgroups => hne hgroups.symm
  · have hstart : Behind [] (.none false) := .none rfl rfl
    rw [clausesWith_eq_clausesWith invent _ p.steps hstart hruns]
    exact clausesWith_group p.steps (.none false)

/-- Reductions behind a group, and one behind a filter. -/
def countedTwice : List Stage :=
  [⟨"GroupBy", [.member "city"]⟩, ⟨"Sum", [.member "age"]⟩, ⟨"Count", []⟩,
   ⟨"Filter", [.binary .gt (.member "COUNT") (.constant (.num (.whole 3)))]⟩, ⟨"LongCount", []⟩]

/-- Their plan: the reduction behind the filter has a group of all rows behind it. -/
def countedTwicePlan : AggregatePlan where
  indexName := "people"
  steps := [.groupBy ["city"], .reduce (.named .sum (.field "age")), .reduce (.named .count .none),
    .filter "(@COUNT > 3)", .reduce (.named .count .none), .groupBy []]

theorem compileAggregate_runs_grouped_countedTwice :
    (compileAggregate (Schema.declare (some "people")) {}
      ((Expr.constant (.str "people")).chainAll countedTwice) {}).1 = .ok countedTwicePlan ∧
    ReductionRun countedTwicePlan.steps (countedTwicePlan.steps.take 4) [.named .count .none]
      [.groupBy []] ∧
    RunGrouped (countedTwicePlan.steps.take 4) [.named .count .none] [.groupBy []] ∧
    clausesWith (fun _ => []) (.none false) countedTwicePlan.steps = countedTwicePlan.clauses := by
  have hcompiles : (compileAggregate (Schema.declare (some "people")) {}
      ((Expr.constant (.str "people")).chainAll countedTwice) {}).1 = .ok countedTwicePlan := by rfl
  have hrun : ReductionRun countedTwicePlan.steps (countedTwicePlan.steps.take 4) [.named .count .none]
      [.groupBy []] := ⟨rfl, by decide, rfl, rfl⟩
  obtain ⟨-, hruns, hclauses⟩ := compileAggregate_runs_grouped (Schema.declare (some "people")) {} {}
    ((Expr.constant (.str "people")).chainAll countedTwice) hcompiles
  exact ⟨hcompiles, hrun, hruns _ _ _ hrun, hclauses fun _ => []⟩

end IndexQuery
