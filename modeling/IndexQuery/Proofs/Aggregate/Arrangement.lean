/-
# Steps and the clauses that they become

In the argument vector of an aggregation reductions stand under groups, so the clauses do not follow
the steps one by one.  `Arranged` says which clauses a list of steps may become:

* a sort, an apply or a filter is a clause of its own;
* a group takes the reductions right before it and the ones right after it;
* reductions that no group takes get a group of all rows;
* a group of all rows has no clause if the group written last has reductions and none follows.

The clauses of every plan are arranged like this (`arranged_clauses`), and all that an arrangement
keeps follows by induction on it: every reduction is there once and in order, so is every step that
is no reduction and no group of all rows, and no reduction passes a sort, an apply or a filter.
Together with reading by counts this says what a vector tells of its plan
(`readCommand_args_arranged`).
-/
import IndexQuery.Proofs.Aggregate.Command

namespace IndexQuery

/-! ## 1. Arrangements -/

/-- The clause of a step that stands alone. -/
def Step.clause? : Step → Option CommandClause
  | groupBy _ | reduce _ => none
  | sortBy key => some (.sort key)
  | apply expr label => some (.apply expr label)
  | filter expr => some (.filter expr)

/-- A reduction comes next. -/
def Step.startsReduce : List Step → Bool
  | reduce _ :: _ => true
  | _ => false

/-- A group comes next. -/
def Step.startsGroup : List Step → Bool
  | groupBy _ :: _ => true
  | _ => false

/-- The clause written last is a group that has reductions. -/
def EndsReduced (last : Option CommandClause) : Prop :=
  ∃ fields reductions, last = some (.group fields reductions) ∧ reductions ≠ []

/-- **The clauses that steps become**, behind the clause written last. -/
inductive Arranged : Option CommandClause → List Step → List CommandClause → Prop
  | nil {last : Option CommandClause} : Arranged last [] []
  | alone {last : Option CommandClause} {step : Step} {clause : CommandClause} {rest : List Step}
      {clauses : List CommandClause} :
      step.clause? = some clause → Arranged (some clause) rest clauses →
      Arranged last (step :: rest) (clause :: clauses)
  | group {last : Option CommandClause} {before after : List Reduction} {fields : List String}
      {rest : List Step} {clauses : List CommandClause} :
      Step.startsReduce rest = false →
      Arranged (some (.group fields ((before ++ after).map Reduction.written))) rest clauses →
      Arranged last (before.map .reduce ++ .groupBy fields :: after.map .reduce ++ rest)
        (.group fields ((before ++ after).map Reduction.written) :: clauses)
  | loose {last : Option CommandClause} {rs : List Reduction} {rest : List Step}
      {clauses : List CommandClause} :
      rs ≠ [] → Step.startsReduce rest = false → Step.startsGroup rest = false →
      Arranged (some (.group [] (rs.map Reduction.written))) rest clauses →
      Arranged last (rs.map .reduce ++ rest) (.group [] (rs.map Reduction.written) :: clauses)
  | dropped {last : Option CommandClause} {rest : List Step} {clauses : List CommandClause} :
      EndsReduced last → Step.startsReduce rest = false → Arranged last rest clauses →
      Arranged last (.groupBy [] :: rest) clauses

/-! ## 2. The clauses of a plan are arranged -/

/-- The steps that are held back, behind the clause written last. -/
inductive Holds (last : Option CommandClause) : Pending → List Step → Prop
  | none {reduced : Bool} : (reduced = true → EndsReduced last) → Holds last (.none reduced) []
  | loose {rs : List Reduction} : rs ≠ [] → Holds last (.loose rs) (rs.map .reduce)
  | group {reduced : Bool} {fields : List String} {before after : List Reduction} :
      (reduced = true → before ≠ [] ∨ EndsReduced last) →
      Holds last (.group reduced fields (before ++ after))
        (before.map .reduce ++ .groupBy fields :: after.map .reduce)

/-- What is held back can be written where no reduction follows and, without a group, no group. -/
theorem Holds.flush {last : Option CommandClause} {held : Pending} {steps next : List Step}
    {clauses : List CommandClause} (h : Holds last held steps)
    (hreduce : Step.startsReduce next = false)
    (hgroup : ∀ rs, held = .loose rs → Step.startsGroup next = false)
    (hnext : ∀ last', (held.reducedAfter = true → EndsReduced last') →
      Arranged last' next clauses) :
    Arranged last (steps ++ next) (held.flush.map PipelineClause.written ++ clauses) := by
  cases h with
  | none hreduced => exact hnext last hreduced
  | @loose rs hne =>
    refine .loose hne hreduce (hgroup rs rfl) (hnext _ fun _ => ?_)
    exact ⟨[], rs.map Reduction.written, rfl, by simpa using hne⟩
  | @group reduced fields before after hreduced =>
    by_cases hvoid : (Pending.group reduced fields (before ++ after)).isVoid = true
    · have hflush : (Pending.group reduced fields (before ++ after)).flush = [] := if_pos hvoid
      simp only [Pending.isVoid, Bool.and_eq_true, List.isEmpty_iff, List.append_eq_nil_iff] at hvoid
      obtain ⟨⟨rfl, rfl, rfl⟩, rfl⟩ := hvoid
      have hlast : EndsReduced last := by
        rcases hreduced rfl with hne | hlast
        · exact absurd rfl hne
        · exact hlast
      rw [hflush]
      exact .dropped hlast hreduce (hnext last fun _ => hlast)
    · have hflush : (Pending.group reduced fields (before ++ after)).flush
          = [.group fields (before ++ after)] := if_neg hvoid
      have hafter : (Pending.group reduced fields (before ++ after)).reducedAfter
          = !(before ++ after).isEmpty := if_neg hvoid
      rw [hflush]
      refine .group hreduce (hnext _ fun hany => ?_)
      rw [hafter] at hany
      refine ⟨fields, (before ++ after).map Reduction.written, rfl, ?_⟩
      simpa using hany

/-- One more reduction is held back with the rest. -/
theorem Holds.reduce {last : Option CommandClause} {held : Pending} {steps : List Step}
    (h : Holds last held steps) (r : Reduction) :
    Holds last (held.reduce r) (steps ++ [.reduce r]) := by
  cases h with
  | none _ => exact .loose (List.cons_ne_nil r [])
  | @loose rs hne =>
    have hsteps : rs.map Step.reduce ++ [.reduce r] = (rs ++ [r]).map Step.reduce := by simp
    rw [hsteps]
    exact .loose (by simp)
  | @group reduced fields before after hreduced =>
    have hsteps : before.map Step.reduce ++ .groupBy fields :: after.map Step.reduce ++ [.reduce r]
        = before.map Step.reduce ++ .groupBy fields :: (after ++ [r]).map Step.reduce := by simp
    rw [hsteps, Pending.reduce, List.append_assoc]
    exact .group hreduced

/-- **The clauses of the steps after what is held back are arranged.** -/
theorem arranged_clausesAfter (steps : List Step) :
    ∀ {last : Option CommandClause} {held : Pending} {heldSteps : List Step},
      Holds last held heldSteps →
      Arranged last (heldSteps ++ steps) ((clausesAfter held steps).map PipelineClause.written) := by
  induction steps with
  | nil =>
    intro last held heldSteps h
    have hend : Arranged last (heldSteps ++ []) (held.flush.map PipelineClause.written ++ []) :=
      h.flush rfl (fun _ _ => rfl) fun _ _ => .nil
    simpa [clausesAfter] using hend
  | cons step rest ih =>
    intro last held heldSteps h
    -- a step that stands alone ends what is held back and leaves nothing behind
    have halone : ∀ clause : PipelineClause, step.clause? = some clause.written →
        Step.startsReduce (step :: rest) = false → Step.startsGroup (step :: rest) = false →
        clausesAfter held (step :: rest) = held.flush ++ clause :: clausesAfter (.none false) rest →
        Arranged last (heldSteps ++ step :: rest)
          ((clausesAfter held (step :: rest)).map PipelineClause.written) := by
      intro clause hclause hreduce hgroup hclauses
      rw [hclauses, List.map_append, List.map_cons]
      exact h.flush hreduce (fun _ _ => hgroup) fun _ _ =>
        .alone hclause (ih (.none fun hfalse => by cases hfalse))
    cases step with
    | groupBy fields =>
      by_cases hloose : ∃ rs, held = .loose rs
      · obtain ⟨rs, rfl⟩ := hloose
        cases h with
        | loose hne =>
          have htaken : Holds last (.group true fields (rs ++ []))
              (rs.map .reduce ++ .groupBy fields :: [].map .reduce) := .group fun _ => .inl hne
          rw [List.append_nil] at htaken
          simpa [clausesAfter] using ih htaken
      · have hclauses : clausesAfter held (.groupBy fields :: rest)
            = held.flush ++ clausesAfter (.group held.reducedAfter fields []) rest := by
          cases held with
          | none reduced => rfl
          | loose rs => exact absurd ⟨rs, rfl⟩ hloose
          | group reduced fields' rs => rfl
        rw [hclauses, List.map_append]
        refine h.flush rfl (fun rs hrs => absurd ⟨rs, hrs⟩ hloose) fun last' hlast => ?_
        have hopen : Holds last' (.group held.reducedAfter fields ([] ++ []))
            ([].map .reduce ++ .groupBy fields :: [].map .reduce) :=
          .group fun hreduced => .inr (hlast hreduced)
        exact ih hopen
    | reduce r =>
      have hsteps : heldSteps ++ .reduce r :: rest = heldSteps ++ [.reduce r] ++ rest := by simp
      rw [hsteps]
      exact ih (h.reduce r)
    | sortBy key => exact halone (.sort key) rfl rfl rfl rfl
    | apply expr label => exact halone (.apply expr label) rfl rfl rfl rfl
    | filter expr => exact halone (.filter expr) rfl rfl rfl rfl

theorem AggregatePlan.arranged_clauses (p : AggregatePlan) :
    Arranged none p.steps p.command.clauses :=
  arranged_clausesAfter p.steps (.none fun hfalse => by cases hfalse)

/-! ## 3. What an arrangement keeps -/

/-- The reductions of a step. -/
def Step.reductions : Step → List CommandReduction
  | reduce r => [r.written]
  | _ => []

/-- The reductions of a clause. -/
def CommandClause.reductions : CommandClause → List CommandReduction
  | group _ rs => rs
  | _ => []

/-- A step that has its own clause in any case: all but reductions and groups of all rows. -/
def Step.isFixed : Step → Bool
  | groupBy fields => !fields.isEmpty
  | reduce _ => false
  | _ => true

/-- The step of a clause, unless it is a group of all rows. -/
def CommandClause.fixed? : CommandClause → Option Step
  | group [] _ => none
  | group (field :: fields) _ => some (.groupBy (field :: fields))
  | sort key => some (.sortBy key)
  | apply expr label => some (.apply expr label)
  | filter expr => some (.filter expr)

theorem flatMap_reductions_map_reduce (rs : List Reduction) :
    (rs.map Step.reduce).flatMap Step.reductions = rs.map Reduction.written := by
  induction rs with
  | nil => rfl
  | cons r rs ih => simp [Step.reductions, ih]

theorem filter_isFixed_map_reduce (rs : List Reduction) :
    (rs.map Step.reduce).filter Step.isFixed = [] := by
  simp [Step.isFixed]

namespace Arranged

variable {last : Option CommandClause} {steps : List Step} {clauses : List CommandClause}

/-- **Every reduction is there once, in its place among the reductions.** -/
theorem reductions (h : Arranged last steps clauses) :
    clauses.flatMap CommandClause.reductions = steps.flatMap Step.reductions := by
  induction h with
  | nil => rfl
  | @alone _ step clause rest clauses hclause _ ih =>
    have hstep : step.reductions = [] ∧ clause.reductions = [] := by
      cases step <;> cases hclause <;> exact ⟨rfl, rfl⟩
    rw [List.flatMap_cons, List.flatMap_cons, hstep.1, hstep.2, ih]
  | group _ _ ih =>
    simp [CommandClause.reductions, Step.reductions, ih, flatMap_reductions_map_reduce]
  | loose _ _ _ _ ih => simp [CommandClause.reductions, ih, flatMap_reductions_map_reduce]
  | dropped _ _ _ ih => simpa [Step.reductions] using ih

/-- **Every step with a clause of its own is there once, in order.** -/
theorem fixed (h : Arranged last steps clauses) :
    clauses.filterMap CommandClause.fixed? = steps.filter Step.isFixed := by
  induction h with
  | nil => rfl
  | @alone _ step clause rest clauses hclause _ ih =>
    have hstep : step.isFixed = true ∧ clause.fixed? = some step := by
      cases step <;> cases hclause <;> exact ⟨rfl, rfl⟩
    rw [List.filterMap_cons_some hstep.2, List.filter_cons_of_pos hstep.1, ih]
  | @group _ before after fields rest clauses _ _ ih =>
    have hgroup : (Step.groupBy fields :: after.map Step.reduce ++ rest).filter Step.isFixed
        = ([Step.groupBy fields].filter Step.isFixed) ++ rest.filter Step.isFixed := by
      rw [← List.singleton_append, List.append_assoc, List.filter_append, List.filter_append,
        filter_isFixed_map_reduce, List.nil_append]
    rw [List.append_assoc, List.filter_append, filter_isFixed_map_reduce, hgroup, ← ih]
    cases fields <;> rfl
  | @loose _ rs rest clauses _ _ _ _ ih =>
    rw [List.filter_append, filter_isFixed_map_reduce, List.nil_append, ← ih]
    rfl
  | dropped _ _ _ ih => exact ih

end Arranged

/-! ## 4. Reductions between other steps -/

/-- A clause that is no group. -/
def CommandClause.isAlone : CommandClause → Bool
  | group .. => false
  | _ => true

/-- A step that is no group and no reduction. -/
def Step.isAlone (step : Step) : Bool :=
  step.clause?.isSome

section Between

variable {α : Type} (isAlone : α → Bool) (reductions : α → List CommandReduction)

/-- The reductions before the first part that stands alone, between the first and the second, and so
on. -/
def reductionsBetween (xs : List α) : List (List CommandReduction) :=
  (xs.splitOnP isAlone).map (List.flatMap reductions)

variable {isAlone reductions}

theorem reductionsBetween_cons_alone {x : α} (h : isAlone x = true) (xs : List α) :
    reductionsBetween isAlone reductions (x :: xs)
      = [] :: reductionsBetween isAlone reductions xs := by
  simp [reductionsBetween, List.splitOnP_cons_eq_if_modifyHead, h]

theorem reductionsBetween_cons {x : α} (h : isAlone x = false) (xs : List α) :
    reductionsBetween isAlone reductions (x :: xs)
      = (reductionsBetween isAlone reductions xs).modifyHead (reductions x ++ ·) := by
  obtain ⟨part, parts, hparts⟩ := List.exists_cons_of_ne_nil (List.splitOnP_ne_nil isAlone xs)
  simp [reductionsBetween, List.splitOnP_cons_eq_if_modifyHead, h, hparts]

theorem modifyHead_nil_append (parts : List (List CommandReduction)) :
    parts.modifyHead ([] ++ ·) = parts := by
  cases parts <;> rfl

theorem reductionsBetween_append {xs : List α} (h : ∀ x ∈ xs, isAlone x = false) (ys : List α) :
    reductionsBetween isAlone reductions (xs ++ ys)
      = (reductionsBetween isAlone reductions ys).modifyHead (xs.flatMap reductions ++ ·) := by
  induction xs with
  | nil => exact (modifyHead_nil_append _).symm
  | cons x xs ih =>
    rw [List.cons_append, reductionsBetween_cons (h x (by simp)),
      ih fun y hy => h y (by simp [hy]), List.modifyHead_modifyHead]
    simp [Function.comp_def]

end Between

theorem Step.isAlone_map_reduce {rs : List Reduction} {step : Step}
    (h : step ∈ rs.map Step.reduce) : step.isAlone = false := by
  obtain ⟨r, -, rfl⟩ := List.mem_map.mp h
  rfl

/-- **No reduction passes a sort, an apply or a filter.** -/
theorem Arranged.between {last : Option CommandClause} {steps : List Step}
    {clauses : List CommandClause} (h : Arranged last steps clauses) :
    reductionsBetween CommandClause.isAlone CommandClause.reductions clauses
      = reductionsBetween Step.isAlone Step.reductions steps := by
  induction h with
  | nil => rfl
  | @alone _ step clause rest clauses hclause _ ih =>
    have hstep : step.isAlone = true ∧ clause.isAlone = true := by
      cases step <;> cases hclause <;> exact ⟨rfl, rfl⟩
    rw [reductionsBetween_cons_alone hstep.1, reductionsBetween_cons_alone hstep.2, ih]
  | @group _ before after fields rest clauses _ _ ih =>
    have hinside : ∀ step ∈ before.map Step.reduce ++ .groupBy fields :: after.map Step.reduce,
        step.isAlone = false := by
      intro step hstep
      rcases List.mem_append.mp hstep with hstep | hstep
      · exact Step.isAlone_map_reduce hstep
      · rcases List.mem_cons.mp hstep with rfl | hstep
        · rfl
        · exact Step.isAlone_map_reduce hstep
    rw [reductionsBetween_cons rfl, reductionsBetween_append hinside, ih]
    simp [CommandClause.reductions, Step.reductions, flatMap_reductions_map_reduce]
  | loose _ _ _ _ ih =>
    rw [reductionsBetween_cons rfl, reductionsBetween_append fun _ => Step.isAlone_map_reduce, ih,
      flatMap_reductions_map_reduce]
    rfl
  | dropped _ _ _ ih =>
    rw [reductionsBetween_cons rfl, ih]
    exact (modifyHead_nil_append _).symm

/-! ## 5. What a vector tells of its plan -/

/-- **The arguments of an aggregation lose, double and reorder nothing.**  Reading by counts accepts
exactly the vectors of commands, the vector of every plan among them, and the clauses that are read
are the steps of the plan in their arrangement. -/
theorem readCommand_args_arranged :
    (∀ v c, readCommand v = some c ↔ v = c.args) ∧
    ∀ p : AggregatePlan, ∃ c, readCommand p.args = some c ∧
      c.indexName = p.indexName ∧ c.queryText = p.queryText.getD "*" ∧
      c.limit = p.window.map (fun w => (w.offset.toNat, w.count.toNat)) ∧
      c.clauses.flatMap CommandClause.reductions = p.steps.flatMap Step.reductions ∧
      c.clauses.filterMap CommandClause.fixed? = p.steps.filter Step.isFixed ∧
      reductionsBetween CommandClause.isAlone CommandClause.reductions c.clauses
        = reductionsBetween Step.isAlone Step.reductions p.steps ∧
      Arranged none p.steps c.clauses := by
  refine ⟨fun v c => readCommand_eq_some_iff, fun p => ?_⟩
  have hread : readCommand p.args = some p.command :=
    readCommand_eq_some_iff.mpr p.args_eq_command_args
  have harranged := p.arranged_clauses
  exact ⟨p.command, hread, rfl, rfl, rfl, harranged.reductions, harranged.fixed,
    harranged.between, harranged⟩

end IndexQuery
