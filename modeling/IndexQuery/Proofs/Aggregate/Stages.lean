/-
# Stages of an aggregation

A stage of an aggregation chain is compiled on its own: `Stage.Requests` lists by name what it can
ask for, and `requests_of_ofStage` says that the compiler keeps to the list.  A whole chain is the list
of what its stages ask for (`AggregatePart.ofStages`), so what it compiles to has nothing to do with
the session (`compileAggregate_fst`).

A stage with a name outside the table asks for nothing, yet it takes up a place.  The innermost
`Where` of a chain is the query, every other one is a step of the pipeline, and a stage that is passed
over right below that `Where` pushes it out of its place.  This is the one position where such a stage
makes a difference (`compileAggregate_insert`).
-/
import IndexQuery.Proofs.Aggregate.ReductionRuns

namespace IndexQuery

/-! ## 1. The table of names -/

/-- The stages that set the window. -/
def windowNames : List String := ["First", "FirstOrDefault", "Take", "Skip"]

/-- The stages that add a step to the pipeline, groups aside. -/
def stepNames : List String := ["Where", "Filter", "Apply"] ++ sortNames ++ reductionNames

/-- All stages of an aggregation. -/
def aggregateNames : List String := "GroupBy" :: windowNames ++ stepNames

/-- **The step that a stage adds**, by its name. -/
inductive Stage.Adds (s : Stage) : Step → Prop
  | filter {e : Expr} {text : String} : s.name ∈ ["Where", "Filter"] → s.arg 0 = .ok e →
      valueText e.peel = .ok text → Adds s (.filter text)
  | apply {e target : Expr} {text label : String} : s.name = "Apply" → s.arg 0 = .ok e →
      valueText e.peel = .ok text → s.arg 1 = .ok target → target.resolveField = .ok label →
      Adds s (.apply text label)
  | sort {key : SortKey} : s.name ∈ sortNames → s.sortKey = .ok key → Adds s (.sortBy key)
  | reduce {r : Reduction} : s.Reduces r → Adds s (.reduce r)

/-- The step of a part, groups included. -/
def AggregatePart.step? : AggregatePart → Option Step
  | narrow _ | take _ | skip _ => none
  | filter text => some (.filter text)
  | reduce r => some (.reduce r)
  | sort key => some (.sortBy key)
  | group keys => some (.groupBy keys)
  | apply text label => some (.apply text label)

/-- **What a stage asks for**, rule by rule; the flag says whether it is the innermost one. -/
inductive Stage.Requests (schema : Schema) (s : Stage) : Bool → Option AggregatePart → Prop
  | narrow {e : Expr} {text : String} : s.name = "Where" → s.arg 0 = .ok e →
      filterText schema e = .ok text → Requests schema s true (some (.narrow text))
  | step {innermost : Bool} {part : AggregatePart} {step : Step} :
      (innermost = true → s.name ≠ "Where") → s.Adds step → part.step? = some step →
      Requests schema s innermost (some part)
  | group {innermost : Bool} {keys : List String} : s.name = "GroupBy" →
      (s.arg 0 >>= Expr.resolveFields) = .ok keys → Requests schema s innermost (some (.group keys))
  | window {innermost : Bool} {part : AggregatePart} : s.name ∈ windowNames →
      (∃ n, part = .take n ∨ part = .skip n) → Requests schema s innermost (some part)
  | passedOver {innermost : Bool} : s.name ∉ aggregateNames → Requests schema s innermost none

namespace AggregatePart

variable {schema : Schema} {innermost : Bool} {s : Stage}

/-- Only of a `Where` it matters where it stands. -/
theorem ofStage_of_ne_where (hname : s.name ≠ "Where") :
    ofStage schema innermost s = ofStage schema false s := by
  unfold ofStage
  split
  · contradiction
  all_goals rfl

theorem mem_reductionNames_of_fieldOnly? {name : String} {function : ReduceFunction}
    (h : Reduction.fieldOnly? name = some function) : name ∈ reductionNames := by
  simp only [Reduction.fieldOnly?] at h
  split at h <;> cases h <;> decide

/-- **The compiler keeps to the table.** -/
theorem requests_of_ofStage {part : Option AggregatePart}
    (h : ofStage schema innermost s = .ok part) : s.Requests schema innermost part := by
  by_cases hreduces : s.name ∈ reductionNames
  · have hwhere : s.name ≠ "Where" := by
      intro hname
      simp [hname, reductionNames] at hreduces
    rw [ofStage_of_ne_where hwhere] at h
    obtain ⟨r, hr, rfl⟩ := Stage.exists_reduces hreduces h
    exact .step (fun _ => hwhere) (.reduce hr) rfl
  have hfilter (hname : s.name ∈ ["Where", "Filter"]) (hplace : innermost = true → s.name ≠ "Where")
      (h : (filterOf s).map some = .ok part) : s.Requests schema innermost part := by
    obtain ⟨filter, hfilter, rfl⟩ := Compiled.map_eq_ok.mp h
    obtain ⟨e, he, hfilter⟩ := Compiled.bind_eq_ok.mp hfilter
    obtain ⟨text, htext, hfilter⟩ := Compiled.bind_eq_ok.mp hfilter
    cases hfilter
    exact .step hplace (.filter hname he htext) rfl
  have hsort (hname : s.name ∈ sortNames) {direction : Direction}
      (hdirection : direction = if s.name = "OrderBy" then .asc else .desc)
      (h : (do
        let field ← (← s.arg 0).resolveField
        return some (sort ⟨field, direction⟩)) = Except.ok part) :
      s.Requests schema innermost part := by
    obtain ⟨e, he, h⟩ := Compiled.bind_eq_ok.mp h
    obtain ⟨field, hfield, h⟩ := Compiled.bind_eq_ok.mp h
    cases h
    subst hdirection
    refine .step (fun _ hwhere => ?_) (.sort hname (Stage.sortKey_eq_ok he hfield)) rfl
    simp [hwhere, sortNames] at hname
  unfold ofStage at h
  split at h
  · next hname =>
    cases innermost with
    | true =>
      obtain ⟨e, he, h⟩ := Compiled.bind_eq_ok.mp h
      obtain ⟨text, htext, h⟩ := Compiled.bind_eq_ok.mp h
      cases h
      exact .narrow hname he htext
    | false => exact hfilter (by simp [hname]) (by simp) h
  · next hname => exact hfilter (by simp [hname]) (by simp [hname]) h
  · next hname =>
    cases h
    exact .window (by simp [windowNames, hname]) ⟨1, .inl rfl⟩
  · next hname =>
    cases h
    exact .window (by simp [windowNames, hname]) ⟨1, .inl rfl⟩
  · next hname =>
    obtain ⟨n, -, rfl⟩ := Compiled.map_eq_ok.mp h
    exact .window (by simp [windowNames, hname]) ⟨n, .inl rfl⟩
  · next hname =>
    obtain ⟨n, -, rfl⟩ := Compiled.map_eq_ok.mp h
    exact .window (by simp [windowNames, hname]) ⟨n, .inr rfl⟩
  iterate 5
    next hname => exact absurd (by simp [hname, reductionNames]) hreduces
  · next hname => exact hsort (by simp [sortNames, hname]) (by simp [hname]) h
  · next hname => exact hsort (by simp [sortNames, hname]) (by simp [hname]) h
  · next hname =>
    obtain ⟨e, he, h⟩ := Compiled.bind_eq_ok.mp h
    obtain ⟨keys, hkeys, h⟩ := Compiled.bind_eq_ok.mp h
    cases h
    exact .group hname (Compiled.bind_eq_ok.mpr ⟨e, he, hkeys⟩)
  · next hname =>
    obtain ⟨e, he, h⟩ := Compiled.bind_eq_ok.mp h
    obtain ⟨text, htext, h⟩ := Compiled.bind_eq_ok.mp h
    obtain ⟨target, htarget, h⟩ := Compiled.bind_eq_ok.mp h
    obtain ⟨label, hlabel, h⟩ := Compiled.bind_eq_ok.mp h
    cases h
    exact .step (by simp [hname]) (.apply hname he htext htarget hlabel) rfl
  · split at h
    · next function hfunction => exact absurd (mem_reductionNames_of_fieldOnly? hfunction) hreduces
    · next hnone =>
      cases h
      refine .passedOver ?_
      grind [aggregateNames, windowNames, stepNames, sortNames]

/-- A stage outside the table is passed over. -/
theorem ofStage_of_not_mem (hname : s.name ∉ aggregateNames) :
    ofStage schema innermost s = .ok none := by
  have hne : ∀ name ∈ aggregateNames, s.name ≠ name := fun name hmem heq => hname (heq ▸ hmem)
  have hreduces : Reduction.fieldOnly? s.name = none := by
    cases hfunction : Reduction.fieldOnly? s.name with
    | none => rfl
    | some function =>
      have hmem := mem_reductionNames_of_fieldOnly? hfunction
      exact absurd (by simp [aggregateNames, stepNames, hmem]) hname
  unfold ofStage
  split
  iterate 15
    next heq => exact absurd heq (hne _ (by decide))
  rw [hreduces]
  rfl

end AggregatePart

/-! ## 2. Chains

A chain is compiled stage by stage, and only the first stage is told that it stands innermost.  The session
is passed along the walk and decides on nothing in it. -/

namespace AggregatePart

/-- What the stages of a chain ask for, innermost first. -/
def ofStages (schema : Schema) : Bool → List Stage → Compiled (List AggregatePart)
  | _, [] => .ok []
  | innermost, stage :: rest => do
    let part ← ofStage schema innermost stage
    let parts ← ofStages schema false rest
    return part.toList ++ parts

variable {schema : Schema} {innermost : Bool}

theorem ofStages_cons_eq_ok {s : Stage} {rest : List Stage} {parts : List AggregatePart} :
    ofStages schema innermost (s :: rest) = .ok parts ↔
      ∃ part restParts, ofStage schema innermost s = .ok part ∧
        ofStages schema false rest = .ok restParts ∧ part.toList ++ restParts = parts := by
  simp only [ofStages, Compiled.bind_eq_ok]
  constructor
  · rintro ⟨part, hpart, restParts, hrest, h⟩
    cases h
    exact ⟨part, restParts, hpart, hrest, rfl⟩
  · rintro ⟨part, restParts, hpart, hrest, rfl⟩
    exact ⟨part, hpart, restParts, hrest, rfl⟩

theorem ofStages_append_eq_ok {before after : List Stage} {parts : List AggregatePart} :
    ofStages schema false (before ++ after) = .ok parts ↔
      ∃ left right, ofStages schema false before = .ok left ∧
        ofStages schema false after = .ok right ∧ left ++ right = parts := by
  induction before generalizing parts with
  | nil => simp [ofStages]
  | cons s before ih =>
    simp only [List.cons_append, ofStages_cons_eq_ok, ih]
    constructor
    · rintro ⟨part, _, hpart, ⟨left, right, hleft, hright, rfl⟩, rfl⟩
      exact ⟨part.toList ++ left, right, ⟨part, left, hpart, hleft, rfl⟩, hright,
        List.append_assoc _ _ _⟩
    · rintro ⟨_, right, ⟨part, left, hpart, hleft, rfl⟩, hright, rfl⟩
      exact ⟨part, left ++ right, hpart, ⟨left, right, hleft, hright, rfl⟩,
        (List.append_assoc _ _ _).symm⟩

end AggregatePart

theorem AggregateDraft.run_fst (schema : Schema) (settings : Settings) :
    ∀ (innermost : Bool) (stages : List Stage) (d : AggregateDraft) (s : Session),
      (run schema settings innermost stages d s).1
        = (AggregatePart.ofStages schema innermost stages).map fun parts =>
          parts.foldl (add settings) d
  | _, [], d, s => rfl
  | innermost, stage :: rest, d, s => by
    rw [run, AggregatePart.ofStages]
    cases hpart : AggregatePart.ofStage schema innermost stage with
    | error e => rfl
    | ok part =>
      cases part with
      | none =>
        dsimp only
        rw [run_fst schema settings false rest d]
        cases AggregatePart.ofStages schema false rest <;> rfl
      | some part =>
        dsimp only
        rw [run_fst schema settings false rest (d.add settings part)]
        cases AggregatePart.ofStages schema false rest <;> rfl

/-- **What an aggregation compiles to**, whatever the session holds. -/
theorem compileAggregate_fst (schema : Schema) (settings : Settings) (e : Expr) (s : Session) :
    (compileAggregate schema settings e s).1
      = schema.indexName.elim (.error .missingIndex) fun index =>
        (AggregatePart.ofStages schema true e.stages.reverse).map fun parts =>
          (parts.foldl (AggregateDraft.add settings) {}).plan index := by
  cases h : schema.indexName with
  | none => simp [compileAggregate, h, observed]
  | some index =>
    rw [compileAggregate, h, observed_fst]
    simp only [AggregateDraft.run_fst, Option.elim_some]
    cases AggregatePart.ofStages schema true e.stages.reverse <;> rfl

theorem compileAggregate_eq_ok {schema : Schema} {settings : Settings} {session : Session}
    {e : Expr} {p : AggregatePlan} :
    (compileAggregate schema settings e session).1 = .ok p ↔
      ∃ index, schema.indexName = some index ∧
        ∃ parts, AggregatePart.ofStages schema true e.stages.reverse = .ok parts ∧
          (parts.foldl (AggregateDraft.add settings) {}).plan index = p := by
  simp only [compileAggregate_fst, Compiled.elim_eq_ok, Compiled.map_eq_ok]

/-! ## 3. The query and the stack -/

/-- The stage that narrows the rows before the pipeline: a `Where` in the innermost place. -/
def innermostWhere? (stages : List Stage) : Option Stage :=
  stages.head?.filter (·.name = "Where")

/-- The stages after that one. -/
def pipelineStages (stages : List Stage) : List Stage :=
  match innermostWhere? stages with
  | some _ => stages.tail
  | none => stages

theorem rel_eq_none_iff {α β : Type} {R : α → β → Prop} {a : Option α} {b : Option β}
    (h : Option.Rel R a b) : a = none ↔ b = none := by
  cases h <;> simp

/-- Without a `Where` in the innermost place it does not matter which place that is. -/
theorem AggregatePart.ofStages_of_innermostWhere? {schema : Schema} {innermost : Bool}
    {stages : List Stage} (h : innermostWhere? stages = none) :
    ofStages schema innermost stages = ofStages schema false stages := by
  cases stages with
  | nil => rfl
  | cons w rest =>
    have hname : w.name ≠ "Where" := by simpa [innermostWhere?] using h
    rw [ofStages, ofStages, ofStage_of_ne_where hname]

/-- A chain is its query, if it has one, and what its other stages ask for. -/
theorem AggregatePart.ofStages_true_eq_ok {schema : Schema} {stages : List Stage}
    {parts : List AggregatePart} (h : ofStages schema true stages = .ok parts) :
    ∃ query? inner,
      Option.Rel (fun w text => (w.arg 0 >>= filterText schema) = .ok text)
        (innermostWhere? stages) query? ∧
      ofStages schema false (pipelineStages stages) = .ok inner ∧
      (query?.map narrow).toList ++ inner = parts := by
  cases hwhere : innermostWhere? stages with
  | none =>
    rw [ofStages_of_innermostWhere? hwhere] at h
    exact ⟨none, parts, .none, by rw [pipelineStages, hwhere]; exact h, rfl⟩
  | some w =>
    obtain ⟨rest, rfl, hname⟩ : ∃ rest, stages = w :: rest ∧ w.name = "Where" := by
      cases stages with
      | nil => cases hwhere
      | cons s rest =>
        obtain ⟨hw, hname⟩ := Option.filter_eq_some_iff.mp hwhere
        cases hw
        exact ⟨rest, rfl, by simpa using hname⟩
    obtain ⟨part, inner, hpart, hinner, rfl⟩ := ofStages_cons_eq_ok.mp h
    cases requests_of_ofStage hpart with
    | @narrow e text _ he htext =>
      exact ⟨some text, inner, .some (Compiled.bind_eq_ok.mpr ⟨e, he, htext⟩),
        by rw [pipelineStages, hwhere]; exact hinner, rfl⟩
    | step hplace _ _ => exact absurd hname (hplace rfl)
    | group hgroup _ => simp [hname] at hgroup
    | window hwindow _ => simp [hname, windowNames] at hwindow
    | passedOver hpassed => exact absurd (by simp [hname, aggregateNames, stepNames]) hpassed

namespace Step

/-- A step on the stack, by the rules for groups and reductions. -/
def push (stack : List Step) : Step → List Step
  | groupBy keys => pushGroup keys stack
  | reduce r => pushReduction r stack
  | step => step :: stack

end Step

namespace AggregateDraft

variable (settings : Settings)

/-- The stack is made of the steps alone. -/
theorem stack_foldl_add (parts : List AggregatePart) (d : AggregateDraft) :
    (parts.foldl (add settings) d).stack
      = (parts.filterMap AggregatePart.step?).foldl Step.push d.stack := by
  induction parts generalizing d with
  | nil => rfl
  | cons part parts ih =>
    rw [List.foldl_cons, ih]
    cases part <;> rfl

theorem queryText_add_of_step? {part : AggregatePart} {step : Step} (h : part.step? = some step)
    (d : AggregateDraft) : (d.add settings part).queryText = d.queryText := by
  cases part with
  | narrow text => cases h
  | _ => rfl

/-- Only the innermost stage makes a query. -/
theorem queryText_foldl_add {schema : Schema} {stages : List Stage} {parts : List AggregatePart}
    (h : AggregatePart.ofStages schema false stages = .ok parts) (d : AggregateDraft) :
    (parts.foldl (add settings) d).queryText = d.queryText := by
  induction stages generalizing parts d with
  | nil =>
    cases h
    rfl
  | cons s stages ih =>
    obtain ⟨part, rest, hpart, hrest, rfl⟩ := AggregatePart.ofStages_cons_eq_ok.mp h
    rw [List.foldl_append, ih hrest]
    cases AggregatePart.requests_of_ofStage hpart with
    | step _ _ hstep => exact queryText_add_of_step? settings hstep d
    | group _ _ | passedOver _ => rfl
    | window _ hwindow =>
      obtain ⟨n, rfl | rfl⟩ := hwindow
      · rfl
      · rfl

end AggregateDraft

/-- **The parts of a plan.**  The query is that of the innermost stage, and the steps are those of the
other stages, pushed one after another. -/
theorem compileAggregate_chainAll_eq_ok {schema : Schema} {settings : Settings} {root : Expr}
    {stages : List Stage} {session : Session} {p : AggregatePlan} (hroot : root.shape ≠ .call)
    (h : (compileAggregate schema settings (root.chainAll stages) session).1 = .ok p) :
    ∃ inner,
      Option.Rel (fun w text => (w.arg 0 >>= filterText schema) = .ok text)
        (innermostWhere? stages) p.queryText ∧
      AggregatePart.ofStages schema false (pipelineStages stages) = .ok inner ∧
      p.steps = ((inner.filterMap AggregatePart.step?).foldl Step.push []).reverse := by
  obtain ⟨index, -, parts, hparts, rfl⟩ := compileAggregate_eq_ok.mp h
  rw [Expr.stages_chainAll_of_root hroot, List.reverse_reverse] at hparts
  obtain ⟨query?, inner, hquery, hinner, rfl⟩ := AggregatePart.ofStages_true_eq_ok hparts
  have hdraft : (query?.map AggregatePart.narrow).toList.foldl (AggregateDraft.add settings) {}
      = { queryText := query? } := by
    cases query? <;> rfl
  refine ⟨inner, ?_, hinner, ?_⟩
  · rw [List.foldl_append, hdraft, AggregateDraft.plan,
      AggregateDraft.queryText_foldl_add settings hinner]
    exact hquery
  · rw [List.foldl_append, hdraft, AggregateDraft.plan, AggregateDraft.stack_foldl_add]

/-! ## 4. Stages that are passed over

Such a stage asks for nothing, but the stage after it no longer stands innermost. -/

namespace AggregatePart

variable {schema : Schema} {innermost : Bool} {u : Stage}

theorem ofStages_cons_of_not_mem (hu : u.name ∉ aggregateNames) (rest : List Stage) :
    ofStages schema innermost (u :: rest) = ofStages schema false rest := by
  rw [ofStages, ofStage_of_not_mem hu]
  cases ofStages schema false rest <;> rfl

/-- **A stage that is passed over makes no difference**, unless it takes the innermost place from a
`Where`. -/
theorem ofStages_insert (hu : u.name ∉ aggregateNames) {before after : List Stage}
    (h : innermost = true → before = [] → innermostWhere? after = none) :
    ofStages schema innermost (before ++ u :: after)
      = ofStages schema innermost (before ++ after) := by
  induction before generalizing innermost with
  | nil =>
    rw [List.nil_append, List.nil_append, ofStages_cons_of_not_mem hu]
    cases innermost with
    | false => rfl
    | true => exact (ofStages_of_innermostWhere? (h rfl rfl)).symm
  | cons s before ih =>
    rw [List.cons_append, List.cons_append, ofStages, ofStages, ih (by simp)]

end AggregatePart

theorem innermostWhere?_cons_of_not_mem {u : Stage} (hu : u.name ∉ aggregateNames)
    (rest : List Stage) : innermostWhere? (u :: rest) = none := by
  have hname : u.name ≠ "Where" := fun hname =>
    hu (by simp [hname, aggregateNames, stepNames])
  simp [innermostWhere?, hname]

/-- **Where a stage that is passed over makes a difference.**  Chained onto `e`, below the stages
`after`, it makes none unless `e` is the root and a `Where` comes right behind it.  There it takes the
innermost place, and the chain loses its query: every plan without it has one, and no plan with it. -/
theorem compileAggregate_insert (schema : Schema) (settings : Settings) (session session' : Session)
    (e : Expr) (u : Stage) (after : List Stage) (hu : u.name ∉ aggregateNames) :
    (e.shape = .call ∨ innermostWhere? after = none →
      (compileAggregate schema settings (e.chainAll (u :: after)) session).1
        = (compileAggregate schema settings (e.chainAll after) session').1) ∧
    (e.shape ≠ .call ∧ innermostWhere? after ≠ none →
      (∀ p, (compileAggregate schema settings (e.chainAll after) session').1 = .ok p →
        p.queryText ≠ none) ∧
      ∀ p, (compileAggregate schema settings (e.chainAll (u :: after)) session).1 = .ok p →
        p.queryText = none) := by
  constructor
  · intro h
    have hinsert : AggregatePart.ofStages schema true (e.stages.reverse ++ u :: after)
        = AggregatePart.ofStages schema true (e.stages.reverse ++ after) := by
      refine AggregatePart.ofStages_insert hu fun _ hroot => h.resolve_left ?_
      exact (Expr.stages_eq_nil_iff e).mp (List.reverse_eq_nil_iff.mp hroot)
    simp only [compileAggregate_fst, Expr.stages_chainAll, List.reverse_append, List.reverse_reverse,
      hinsert]
  · rintro ⟨hroot, hwhere⟩
    refine ⟨fun p hp hnone => ?_, fun p hp => ?_⟩
    · obtain ⟨-, hquery, -⟩ := compileAggregate_chainAll_eq_ok hroot hp
      exact hwhere ((rel_eq_none_iff hquery).mpr hnone)
    · obtain ⟨-, hquery, -⟩ := compileAggregate_chainAll_eq_ok hroot hp
      exact (rel_eq_none_iff hquery).mp (innermostWhere?_cons_of_not_mem hu after)

/-- A schema with a text. -/
def bioSchema : Schema := (Schema.declare (some "people")).withField "bio" .text

/-- A filter that the steps of a pipeline can express too. -/
def bioIs : Stage := ⟨"Where", [.binary .eq (.member "bio") (.constant (.str "x"))]⟩

/-- A filter that only a query can express. -/
def bioEnds : Stage := ⟨"Where", [.call "EndsWith" [.member "bio", .constant (.str "x")]]⟩

/-- A stage that is passed over. -/
def asNoTracking : Stage := ⟨"AsNoTracking", []⟩

/-- Behind the innermost `Where` the stage makes no difference.  Below it, one filter becomes a step
of the pipeline and the other is rejected. -/
theorem compileAggregate_insert_asNoTracking :
    asNoTracking.name ∉ aggregateNames ∧
    (compileAggregate bioSchema {} (((Expr.constant (.str "people")).chainAll [bioEnds]).chainAll
        [asNoTracking, ⟨"Count", []⟩]) {}).1
      = (compileAggregate bioSchema {} (((Expr.constant (.str "people")).chainAll [bioEnds]).chainAll
        [⟨"Count", []⟩]) {}).1 ∧
    (∀ p, (compileAggregate bioSchema {} ((Expr.constant (.str "people")).chainAll [bioIs]) {}).1
      = .ok p → p.queryText ≠ none) ∧
    (∀ p, (compileAggregate bioSchema {} ((Expr.constant (.str "people")).chainAll
      [asNoTracking, bioIs]) {}).1 = .ok p → p.queryText = none) ∧
    (compileAggregate bioSchema {} ((Expr.constant (.str "people")).chainAll
      [asNoTracking, bioIs]) {}).1 = .ok ⟨"people", none, none, [.filter "(@bio == 'x')"]⟩ ∧
    (compileAggregate bioSchema {} ((Expr.constant (.str "people")).chainAll [bioEnds]) {}).1
      = .ok ⟨"people", some "@bio:*x", none, []⟩ ∧
    (compileAggregate bioSchema {} ((Expr.constant (.str "people")).chainAll
      [asNoTracking, bioEnds]) {}).1 = .error (.unsupportedOperator "EndsWith") := by
  have hpassed : asNoTracking.name ∉ aggregateNames := by decide
  have hbehind := (compileAggregate_insert bioSchema {} {} {}
    ((Expr.constant (.str "people")).chainAll [bioEnds]) asNoTracking [⟨"Count", []⟩] hpassed).1
    (.inl rfl)
  have hbelow := (compileAggregate_insert bioSchema {} {} {} (.constant (.str "people")) asNoTracking
    [bioIs] hpassed).2 ⟨by decide, by simp [innermostWhere?, bioIs]⟩
  exact ⟨hpassed, hbehind, hbelow.1, hbelow.2, by rfl, by rfl, by rfl⟩

end IndexQuery
