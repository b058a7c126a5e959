/-
# The steps of an aggregation, segment by segment

The compiler pushes the steps of a chain on a stack on which two things happen besides: a group on
top of a group becomes one group, and a reduction may get a group of all rows behind it.  Seen from
the chain this touches the groups alone.  The other steps stand in the plan one by one, in chain
order, and they divide both the chain and the plan into segments.  In the plan a segment holds one
group or none, with the keys of all groups that the chain has there, those chained last first.

The main result is `compileAggregate_segments`.  Behind it are a frame property of the stack
(`Step.exists_foldl_push_append`: a step that is no group, and all below it, stays as it is) and the
equation for a run of groups (`Step.foldl_push_groups`).
-/
import IndexQuery.Proofs.Aggregate.Stages

namespace IndexQuery

/-! ## 1. Segments of a chain and of a plan -/

namespace Stage

/-- A stage that adds a step other than a group. -/
def addsStep (s : Stage) : Bool := s.name ∈ stepNames

/-- A stage that groups. -/
def groups (s : Stage) : Bool := s.name = "GroupBy"

/-- The keys that a grouping stage names. -/
def HasKeys (s : Stage) (keys : List String) : Prop :=
  (s.arg 0 >>= Expr.resolveFields) = .ok keys

end Stage

/-- **A segment of a chain**: all stages between two that add a step, or up to an end. -/
structure IsSegment (stages before segment after : List Stage) : Prop where
  split : stages = before ++ segment ++ after
  inside : ∀ s ∈ segment, s.addsStep = false
  left : ∀ s ∈ before.getLast?, s.addsStep = true
  right : ∀ s ∈ after.head?, s.addsStep = true

namespace Step

/-- A group. -/
def isGroup : Step → Bool
  | groupBy _ => true
  | _ => false

/-- The steps that are no groups. -/
def withoutGroups (steps : List Step) : List Step :=
  steps.filter fun step => !step.isGroup

/-- Whether steps end with a reduction that has no group: before it comes neither a group nor a
reduction of a field alone. -/
def endsUngrouped (steps : List Step) : Bool :=
  match steps.reverse with
  | reduce _ :: groupBy _ :: _ => false
  | reduce _ :: reduce ⟨_, .field _, _⟩ :: _ => false
  | reduce _ :: _ => true
  | _ => false

end Step

/-- The steps of stages, groups aside. -/
def Stage.Yield (stages : List Stage) (steps : List Step) : Prop :=
  List.Forall₂ Stage.Adds (stages.filter Stage.addsStep) (Step.withoutGroups steps)

/-! ## 2. The stack -/

namespace Step

theorem withoutGroups_append (steps steps' : List Step) :
    withoutGroups (steps ++ steps') = withoutGroups steps ++ withoutGroups steps' :=
  List.filter_append _ _

@[simp] theorem withoutGroups_group (condition : Bool) (keys : List String) :
    withoutGroups (if condition then [groupBy keys] else []) = [] := by
  cases condition <;> rfl

theorem withoutGroups_reverse (steps : List Step) :
    withoutGroups steps.reverse = (withoutGroups steps).reverse :=
  List.filter_reverse

theorem withoutGroups_push (stack : List Step) (step : Step) :
    withoutGroups (push stack step) = withoutGroups [step] ++ withoutGroups stack := by
  cases step with
  | groupBy keys =>
    simp only [push, pushGroup]
    split <;> simp [withoutGroups, isGroup]
  | reduce r =>
    simp only [push, pushReduction]
    split <;> simp [withoutGroups, isGroup]
  | _ => simp [push, withoutGroups, isGroup]

theorem withoutGroups_foldl_push (steps stack : List Step) :
    withoutGroups (steps.foldl push stack)
      = (withoutGroups steps).reverse ++ withoutGroups stack := by
  induction steps generalizing stack with
  | nil => rfl
  | cons step steps ih =>
    have hcons : withoutGroups (step :: steps) = withoutGroups [step] ++ withoutGroups steps :=
      withoutGroups_append [step] steps
    have hone : (withoutGroups [step]).reverse = withoutGroups [step] := by cases step <;> rfl
    rw [List.foldl_cons, ih, withoutGroups_push, hcons, List.reverse_append, hone, List.append_assoc]

/-- Without a group on top a group is pushed as it is. -/
theorem pushGroup_of_head? {stack : List Step} (h : ∀ top ∈ stack.head?, top.isGroup = false)
    (keys : List String) : pushGroup keys stack = groupBy keys :: stack := by
  cases stack with
  | nil => rfl
  | cons top stack =>
    cases top with
    | groupBy existing => cases h _ rfl
    | _ => rfl

/-- One step changes nothing from a step on that is no group. -/
theorem exists_push_append {kept : Step} (hkept : kept.isGroup = false) (top below : List Step)
    (step : Step) : ∃ top', push (top ++ kept :: below) step = top' ++ kept :: below := by
  cases step with
  | groupBy keys =>
    cases top with
    | nil => exact ⟨[groupBy keys], pushGroup_of_head? (by simpa using hkept) keys⟩
    | cons first top =>
      cases first with
      | groupBy existing => exact ⟨groupBy (keys ++ existing) :: top, rfl⟩
      | _ => exact ⟨_ :: _ :: top, rfl⟩
  | reduce r =>
    by_cases hgrouped : isGrouped (top ++ kept :: below) = true
    · exact ⟨reduce r :: top, if_pos hgrouped⟩
    · exact ⟨groupBy [] :: reduce r :: top, if_neg hgrouped⟩
  | sortBy key => exact ⟨sortBy key :: top, rfl⟩
  | apply expr label => exact ⟨apply expr label :: top, rfl⟩
  | filter expr => exact ⟨filter expr :: top, rfl⟩

/-- **Nor do several.** -/
theorem exists_foldl_push_append {kept : Step} (hkept : kept.isGroup = false)
    (top below steps : List Step) :
    ∃ top', steps.foldl push (top ++ kept :: below) = top' ++ kept :: below := by
  induction steps generalizing top with
  | nil => exact ⟨top, rfl⟩
  | cons step steps ih =>
    obtain ⟨top', hpush⟩ := exists_push_append hkept top below step
    rw [List.foldl_cons, hpush]
    exact ih top'

/-- A step that is no group goes on top, with a group behind it if it is a reduction without one. -/
theorem push_of_not_isGroup {step : Step} (hstep : step.isGroup = false) (stack : List Step) :
    push stack step
      = (if endsUngrouped (step :: stack).reverse then [groupBy []] else []) ++ step :: stack := by
  cases step with
  | groupBy keys => cases hstep
  | reduce r =>
    have hends : endsUngrouped (reduce r :: stack).reverse = !isGrouped stack := by
      rw [endsUngrouped, List.reverse_reverse]
      rcases stack with _ | ⟨top, stack⟩
      · rfl
      · rcases top with _ | ⟨function, args, label⟩ | _ | _ | _
        · rfl
        · cases args <;> rfl
        · rfl
        · rfl
        · rfl
    rw [hends, push, pushReduction]
    cases isGrouped stack <;> rfl
  | _ => simp [push, endsUngrouped]

/-- **A run of groups** becomes one group, the keys of the last one first. -/
theorem foldl_push_groups (base : List Step) (hbase : ∀ top ∈ base.head?, top.isGroup = false)
    (keys : List (List String)) (held : Option (List String)) :
    (keys.map groupBy).foldl push ((held.map groupBy).toList ++ base)
      = ((if keys.isEmpty then held
          else some (keys.reverse.flatten ++ held.getD [])).map groupBy).toList ++ base := by
  induction keys generalizing held with
  | nil => rfl
  | cons k keys ih =>
    have hpush : push ((held.map groupBy).toList ++ base) (groupBy k)
        = ((some (k ++ held.getD [])).map groupBy).toList ++ base := by
      cases held with
      | some existing => rfl
      | none =>
        simpa [push] using pushGroup_of_head? hbase k
    rw [List.map_cons, List.foldl_cons, hpush, ih]
    cases keys <;> simp

/-- Steps up to one that is no group, and the group that the last of them may have got. -/
theorem exists_foldl_push_left {before : List Step}
    (hbefore : ∀ step ∈ before.getLast?, step.isGroup = false) :
    ∃ left, before.foldl push []
        = (if endsUngrouped left then [groupBy []] else []) ++ left.reverse ∧
      withoutGroups left = withoutGroups before ∧
      ∀ step ∈ left.getLast?, step.isGroup = false := by
  rcases List.eq_nil_or_concat' before with rfl | ⟨init, last, rfl⟩
  · exact ⟨[], rfl, rfl, by simp⟩
  · have hlast : last.isGroup = false := hbefore last (by simp)
    have heq : (init ++ [last]).foldl push []
        = (if endsUngrouped (last :: init.foldl push []).reverse then [groupBy []] else [])
          ++ (last :: init.foldl push []).reverse.reverse := by
      rw [List.foldl_append, List.foldl_cons, List.foldl_nil, push_of_not_isGroup hlast,
        List.reverse_reverse]
    refine ⟨(last :: init.foldl push []).reverse, heq, ?_, by simpa using hlast⟩
    have hsteps := withoutGroups_foldl_push (init ++ [last]) []
    rw [heq, withoutGroups_append, withoutGroups_group, withoutGroups_reverse, List.nil_append] at hsteps
    exact List.reverse_inj.mp (hsteps.trans (List.append_nil _))

/-- Steps from one on that is no group leave all below it as it is. -/
theorem exists_foldl_push_right {after : List Step}
    (hafter : ∀ step ∈ after.head?, step.isGroup = false) (below : List Step) :
    ∃ right, after.foldl push below = right.reverse ++ below ∧
      withoutGroups right = withoutGroups after ∧
      ∀ step ∈ right.head?, step.isGroup = false := by
  cases after with
  | nil => exact ⟨[], rfl, rfl, by simp⟩
  | cons first after =>
    have hfirst : first.isGroup = false := hafter first rfl
    obtain ⟨top, htop⟩ := exists_foldl_push_append hfirst
      (if endsUngrouped (first :: below).reverse then [groupBy []] else []) below after
    have heq : (first :: after).foldl push below = (first :: top.reverse).reverse ++ below := by
      rw [List.foldl_cons, push_of_not_isGroup hfirst, htop]
      simp
    refine ⟨first :: top.reverse, heq, ?_, by simpa using hfirst⟩
    have hsteps := withoutGroups_foldl_push (first :: after) below
    rw [heq, withoutGroups_append, withoutGroups_reverse] at hsteps
    exact List.reverse_inj.mp (List.append_cancel_right hsteps)

/-- **The group of a segment.**  Between steps that are no groups, a run of groups becomes one group
or none. -/
theorem exists_foldl_push_segment {before after : List Step} (keys : List (List String))
    (hbefore : ∀ step ∈ before.getLast?, step.isGroup = false)
    (hafter : ∀ step ∈ after.head?, step.isGroup = false) :
    ∃ left right,
      ((before ++ keys.map groupBy ++ after).foldl push []).reverse
        = left ++ (if !keys.isEmpty || endsUngrouped left then [groupBy keys.reverse.flatten] else [])
          ++ right ∧
      withoutGroups left = withoutGroups before ∧ withoutGroups right = withoutGroups after ∧
      (∀ step ∈ left.getLast?, step.isGroup = false) ∧
      ∀ step ∈ right.head?, step.isGroup = false := by
  obtain ⟨left, hleft, hleftSteps, hleftEnd⟩ := exists_foldl_push_left hbefore
  obtain ⟨right, hright, hrightSteps, hrightEnd⟩ := exists_foldl_push_right hafter
    ((if !keys.isEmpty || endsUngrouped left then [groupBy keys.reverse.flatten] else [])
      ++ left.reverse)
  refine ⟨left, right, ?_, hleftSteps, hrightSteps, hleftEnd, hrightEnd⟩
  have hgroup : (keys.map groupBy).foldl push
        ((if endsUngrouped left then [groupBy []] else []) ++ left.reverse)
      = (if !keys.isEmpty || endsUngrouped left then [groupBy keys.reverse.flatten] else [])
        ++ left.reverse := by
    have hrun := foldl_push_groups left.reverse (by simpa using hleftEnd) keys
      (if endsUngrouped left then some [] else none)
    cases keys with
    | nil => cases endsUngrouped left <;> rfl
    | cons k keys => cases hends : endsUngrouped left <;> simpa [hends] using hrun
  rw [List.foldl_append, List.foldl_append, hleft, hgroup, hright]
  simp only [List.reverse_append, List.reverse_reverse]
  split <;> rfl

end Step

/-! ## 3. What stages push -/

/-- **What a stage pushes**: a step, a group, or nothing. -/
inductive Stage.Pushes (s : Stage) : List Step → Prop
  | step {step : Step} : s.addsStep = true → s.groups = false → s.Adds step → Pushes s [step]
  | group {keys : List String} : s.addsStep = false → s.groups = true → s.HasKeys keys →
      Pushes s [.groupBy keys]
  | nothing : s.addsStep = false → s.groups = false → Pushes s []

theorem Stage.Adds.name_mem {s : Stage} {step : Step} (h : s.Adds step) : s.name ∈ stepNames := by
  cases h with
  | filter hname _ _ => grind [stepNames]
  | apply hname _ _ _ _ => simp [hname, stepNames]
  | sort hname _ => simp [stepNames, hname]
  | reduce hr => simp [stepNames, hr.name_mem]

theorem Stage.Adds.not_isGroup {s : Stage} {step : Step} (h : s.Adds step) : step.isGroup = false := by
  cases h <;> rfl

/-- The kinds of stages do not overlap. -/
theorem not_addsStep_of_window {s : Stage} (hname : s.name ∈ windowNames) :
    s.addsStep = false ∧ s.groups = false := by
  have htable : ∀ name ∈ windowNames, name ∉ stepNames ∧ name ≠ "GroupBy" := by decide
  simpa [Stage.addsStep, Stage.groups] using htable s.name hname

theorem not_groups_of_addsStep {s : Stage} (hname : s.name ∈ stepNames) : s.groups = false := by
  have htable : ∀ name ∈ stepNames, name ≠ "GroupBy" := by decide
  simpa [Stage.groups] using htable s.name hname

theorem Stage.Requests.pushes {schema : Schema} {s : Stage} {part : Option AggregatePart}
    (h : s.Requests schema false part) :
    s.Pushes (part.toList.filterMap AggregatePart.step?) := by
  cases h with
  | @step _ part step _ hadds hstep =>
    have hsteps : [part].filterMap AggregatePart.step? = [step] := by simp [hstep]
    rw [Option.toList_some, hsteps]
    exact .step (by simpa [addsStep] using hadds.name_mem)
      (not_groups_of_addsStep hadds.name_mem) hadds
  | group hname hkeys =>
    refine .group ?_ (by simp [groups, hname]) hkeys
    rw [addsStep, hname]
    decide
  | window hname hpart =>
    obtain ⟨hadds, hgroups⟩ := not_addsStep_of_window hname
    obtain ⟨n, rfl | rfl⟩ := hpart
    · exact .nothing hadds hgroups
    · exact .nothing hadds hgroups
  | passedOver hname =>
    refine .nothing ?_ ?_
    · simpa [addsStep] using fun h => hname (List.mem_append_right _ h)
    · simpa [groups] using fun h => hname (by simp [h, aggregateNames])

section Pushed

variable {schema : Schema} {stages : List Stage} {parts : List AggregatePart}

/-- The steps that a chain pushes, stage by stage. -/
theorem AggregatePart.exists_pushes (h : ofStages schema false stages = .ok parts) :
    ∃ pushed, List.Forall₂ Stage.Pushes stages pushed ∧
      parts.filterMap step? = pushed.flatten := by
  induction stages generalizing parts with
  | nil =>
    cases h
    exact ⟨[], .nil, rfl⟩
  | cons s stages ih =>
    obtain ⟨part, rest, hpart, hrest, rfl⟩ := ofStages_cons_eq_ok.mp h
    obtain ⟨pushed, hpushed, hsteps⟩ := ih hrest
    refine ⟨_ :: pushed, .cons (requests_of_ofStage hpart).pushes hpushed, ?_⟩
    rw [List.filterMap_append, hsteps, List.flatten_cons]

variable {pushed : List (List Step)}

/-- A chain yields what it pushes. -/
theorem Stage.yield_of_pushes (h : List.Forall₂ Stage.Pushes stages pushed) :
    Stage.Yield stages pushed.flatten := by
  induction h with
  | nil => exact .nil
  | cons hs _ ih =>
    rw [Stage.Yield, List.flatten_cons, Step.withoutGroups_append]
    cases hs with
    | step hadds _ hstep =>
      have hown : ∀ {step : Step}, step.isGroup = false → Step.withoutGroups [step] = [step] := by
        intro step hgroup
        simp [Step.withoutGroups, hgroup]
      rw [List.filter_cons_of_pos hadds, hown hstep.not_isGroup]
      exact .cons hstep ih
    | group hadds _ _ | nothing hadds _ =>
      rw [List.filter_cons_of_neg (by simp [hadds])]
      exact ih

/-- A segment pushes its groups. -/
theorem Stage.exists_keys_of_pushes (h : List.Forall₂ Stage.Pushes stages pushed)
    (hsegment : ∀ s ∈ stages, s.addsStep = false) :
    ∃ keys, List.Forall₂ Stage.HasKeys (stages.filter Stage.groups) keys ∧
      pushed.flatten = keys.map Step.groupBy := by
  induction h with
  | nil => exact ⟨[], .nil, rfl⟩
  | @cons s steps stages pushed hs _ ih =>
    obtain ⟨keys, hkeys, hsteps⟩ := ih fun t ht => hsegment t (List.mem_cons_of_mem s ht)
    cases hs with
    | step hadds _ _ => exact absurd hadds (by simp [hsegment s])
    | @group k _ hgroups hk =>
      refine ⟨k :: keys, ?_, ?_⟩
      · rw [List.filter_cons_of_pos hgroups]
        exact .cons hk hkeys
      · rw [List.flatten_cons, hsteps]
        rfl
    | nothing _ hgroups =>
      refine ⟨keys, ?_, ?_⟩
      · rw [List.filter_cons_of_neg (by simp [hgroups])]
        exact hkeys
      · rw [List.flatten_cons, hsteps]
        rfl

theorem Stage.any_groups {keys : List (List String)}
    (h : List.Forall₂ Stage.HasKeys (stages.filter Stage.groups) keys) :
    stages.any Stage.groups = !keys.isEmpty := by
  cases keys with
  | nil =>
    have hnone := List.forall₂_nil_right_iff.mp h
    simpa using hnone
  | cons k keys =>
    obtain ⟨s, rest, -, -, hfilter⟩ := List.forall₂_cons_right_iff.mp h
    have hs : s ∈ stages.filter Stage.groups := by simp [hfilter]
    simpa using ⟨s, List.mem_filter.mp hs⟩

/-- A chain that begins with a step pushes it first. -/
theorem Stage.head?_pushed (h : List.Forall₂ Stage.Pushes stages pushed)
    (hhead : ∀ s ∈ stages.head?, s.addsStep = true) :
    ∀ step ∈ pushed.flatten.head?, step.isGroup = false := by
  cases h with
  | nil => simp
  | @cons s steps stages pushed hs _ =>
    have hadds : s.addsStep = true := hhead s rfl
    cases hs with
    | step _ _ hstep => simpa using hstep.not_isGroup
    | group hnot _ _ | nothing hnot _ => simp [hadds] at hnot

/-- A chain that ends with a step pushes it last.  A stage pushes one step at most, so this is the
lemma before read from the other end. -/
theorem Stage.getLast?_pushed (h : List.Forall₂ Stage.Pushes stages pushed)
    (hlast : ∀ s ∈ stages.getLast?, s.addsStep = true) :
    ∀ step ∈ pushed.flatten.getLast?, step.isGroup = false := by
  have hsingle : pushed.map List.reverse = pushed := by
    clear hlast
    induction h with
    | nil => rfl
    | cons hs _ ih =>
      rw [List.map_cons, ih]
      cases hs <;> rfl
  have hflatten : pushed.flatten.reverse = pushed.reverse.flatten := by
    rw [List.reverse_flatten, hsingle]
  rw [← List.head?_reverse, hflatten]
  exact Stage.head?_pushed (List.forall₂_reverse_iff.mpr h) (by simpa using hlast)

end Pushed

/-! ## 4. Plans -/

/-- **The steps of a plan, segment by segment.**  Groups aside they are those of the chain, in chain
order, less a `Where` in the innermost place, which is the query.  And in every segment of the chain
the plan has one group or none: it has one exactly if the chain has a group there or the step before
is a reduction without one, and its keys are those of all groups of the segment, the last group
first. -/
theorem compileAggregate_segments (schema : Schema) (settings : Settings) (session : Session)
    (root : Expr) (stages : List Stage) {p : AggregatePlan} (hroot : root.shape ≠ .call)
    (h : (compileAggregate schema settings (root.chainAll stages) session).1 = .ok p) :
    Stage.Yield (pipelineStages stages) p.steps ∧
    Option.Rel (fun w text => (w.arg 0 >>= filterText schema) = .ok text)
      (innermostWhere? stages) p.queryText ∧
    ∀ before segment after, IsSegment (pipelineStages stages) before segment after →
      ∃ left keys right,
        p.steps = left
          ++ (if segment.any Stage.groups || Step.endsUngrouped left
              then [.groupBy keys.reverse.flatten] else [])
          ++ right ∧
        List.Forall₂ Stage.HasKeys (segment.filter Stage.groups) keys ∧
        Stage.Yield before left ∧ Stage.Yield after right ∧
        (∀ step ∈ left.getLast?, step.isGroup = false) ∧
        ∀ step ∈ right.head?, step.isGroup = false := by
  obtain ⟨inner, hquery, hinner, hsteps⟩ := compileAggregate_chainAll_eq_ok hroot h
  refine ⟨?_, hquery, ?_⟩
  · obtain ⟨pushed, hpushed, hflatten⟩ := AggregatePart.exists_pushes hinner
    have hown : Step.withoutGroups p.steps = Step.withoutGroups pushed.flatten := by
      rw [hsteps, Step.withoutGroups_reverse, Step.withoutGroups_foldl_push, hflatten,
        List.reverse_append, List.reverse_reverse]
      rfl
    rw [Stage.Yield, hown]
    exact Stage.yield_of_pushes hpushed
  · rintro before segment after ⟨hsplit, hinside, hleft, hright⟩
    rw [hsplit] at hinner
    obtain ⟨_, partsAfter, hmore, hafter, rfl⟩ := AggregatePart.ofStages_append_eq_ok.mp hinner
    obtain ⟨partsBefore, partsSegment, hbefore, hsegment, rfl⟩ :=
      AggregatePart.ofStages_append_eq_ok.mp hmore
    obtain ⟨pushedBefore, hpushedBefore, hflatBefore⟩ := AggregatePart.exists_pushes hbefore
    obtain ⟨pushedSegment, hpushedSegment, hflatSegment⟩ := AggregatePart.exists_pushes hsegment
    obtain ⟨pushedAfter, hpushedAfter, hflatAfter⟩ := AggregatePart.exists_pushes hafter
    obtain ⟨keys, hkeys, hgroups⟩ := Stage.exists_keys_of_pushes hpushedSegment hinside
    obtain ⟨left, right, heq, hleftSteps, hrightSteps, hleftEnd, hrightEnd⟩ :=
      Step.exists_foldl_push_segment keys (Stage.getLast?_pushed hpushedBefore hleft)
        (Stage.head?_pushed hpushedAfter hright)
    refine ⟨left, keys, right, ?_, hkeys, ?_, ?_, hleftEnd, hrightEnd⟩
    · rw [hsteps, List.filterMap_append, List.filterMap_append, hflatBefore, hflatSegment, hflatAfter,
        hgroups, heq, Stage.any_groups hkeys]
    · rw [Stage.Yield, hleftSteps]
      exact Stage.yield_of_pushes hpushedBefore
    · rw [Stage.Yield, hrightSteps]
      exact Stage.yield_of_pushes hpushedAfter

/-- Groups on both sides of a window. -/
def groupedTwice : List Stage :=
  [⟨"GroupBy", [.member "city"]⟩, ⟨"Take", [.constant (.num (.whole 5))]⟩,
   ⟨"GroupBy", [.lambda (.record ["age", "city"])]⟩]

/-- Reductions, the second without a group, with a group behind them; and behind a filter two more, of
which the first has no group. -/
def reducedTwice : List Stage :=
  [⟨"Count", []⟩, ⟨"Sum", [.member "age"]⟩, ⟨"GroupBy", [.member "city"]⟩,
   ⟨"Where", [.binary .gt (.member "COUNT") (.constant (.num (.whole 3)))]⟩,
   ⟨"RandomSample", [.member "age", .constant (.num (.whole 2))]⟩,
   ⟨"FirstValue", [.member "name", .lambda (.member "age"), .constant (.str "Desc")]⟩]

/-- A query before them. -/
def adultsOnly : Stage :=
  ⟨"Where", [.lambda (.binary .gt (.member "age") (.constant (.num (.whole 21))))]⟩

/-- The plan of all these. -/
def adultsPlan : AggregatePlan where
  indexName := "people"
  queryText := some "(@age:[(21 inf])"
  window := some ⟨0, 5⟩
  steps := [.groupBy ["age", "city", "city"], .reduce ⟨.count, .none, "COUNT"⟩,
    .reduce ⟨.sum, .field "age", "age_SUM"⟩, .groupBy ["city"], .filter "(@COUNT > 3)",
    .reduce ⟨.randomSample, .parameter "age" (.whole 2), "age_RANDOM_SAMPLE"⟩, .groupBy [],
    .reduce ⟨.firstValue, .first "name" (some ⟨"age", .desc⟩), "name_FIRST_VALUE"⟩]

theorem compileAggregate_segments_adultsPlan :
    (compileAggregate ((Schema.declare (some "people")).withField "age" .numeric) {}
      ((Expr.constant (.str "people")).chainAll (adultsOnly :: (groupedTwice ++ reducedTwice)))
      {}).1 = .ok adultsPlan ∧
    Stage.Yield (groupedTwice ++ reducedTwice) adultsPlan.steps ∧
    IsSegment (groupedTwice ++ reducedTwice) [] groupedTwice reducedTwice ∧
    ∃ left keys right,
      adultsPlan.steps = left
        ++ (if groupedTwice.any Stage.groups || Step.endsUngrouped left
            then [.groupBy keys.reverse.flatten] else [])
        ++ right ∧
      List.Forall₂ Stage.HasKeys (groupedTwice.filter Stage.groups) keys ∧
      Stage.Yield [] left ∧ Stage.Yield reducedTwice right := by
  have hcompiles : (compileAggregate ((Schema.declare (some "people")).withField "age" .numeric) {}
      ((Expr.constant (.str "people")).chainAll (adultsOnly :: (groupedTwice ++ reducedTwice)))
      {}).1 = .ok adultsPlan := by rfl
  have hsegment : IsSegment (groupedTwice ++ reducedTwice) [] groupedTwice reducedTwice :=
    ⟨rfl, by decide, by simp, by simp [reducedTwice, Stage.addsStep, stepNames, reductionNames]⟩
  obtain ⟨hyield, -, hsegments⟩ := compileAggregate_segments
    ((Schema.declare (some "people")).withField "age" .numeric) {} {} (.constant (.str "people"))
    (adultsOnly :: (groupedTwice ++ reducedTwice)) (by decide) hcompiles
  obtain ⟨left, keys, right, hsteps, hkeys, hleft, hright, -⟩ := hsegments _ _ _ hsegment
  exact ⟨hcompiles, hyield, hsegment, left, keys, right, hsteps, hkeys, hleft, hright⟩

end IndexQuery
