/-
# Conversions in chains

A conversion changes no value, and the resolvers of fields, the constants and the predicates all look
through it.  The walk along a chain does not: it stops at the first receiver that is no call, and a
conversion is none.  So what stands below a conversion is not converted but lost, and the chain
compiles as if it began there (`compile_convert`).

A conversion around a root makes no difference, since nothing stands below it.  Around a whole search
it always makes one, because every stage and every bare filter leaves something in its plan
(`SearchDraft.plan_eq_blank_iff`); around a whole aggregation it makes one unless all of its stages are
passed over.
-/
import IndexQuery.Proofs.Aggregate.Stages
import IndexQuery.Proofs.Query.Clauses
import IndexQuery.Proofs.Search.Assembly
import Mathlib.Logic.Function.Iterate

namespace IndexQuery

/-! ## 1. Chains on a conversion

A compile sees of an expression its stages and whether it is a lambda, and nothing else. -/

/-- An expression in at least one conversion is a root, whatever it is inside. -/
theorem Expr.shape_iterate_convert (e : Expr) (k : Nat) :
    (Expr.convert^[k + 1] e).shape = .unary := by
  rw [Function.iterate_succ_apply']
  rfl

theorem Expr.stages_iterate_convert (e : Expr) (k : Nat) : (Expr.convert^[k + 1] e).stages = [] := by
  rw [stages_eq_nil_iff, shape_iterate_convert]
  decide

theorem Expr.shape_chainAll_convert (e : Expr) (k : Nat) (after : List Stage) :
    ((Expr.convert^[k + 1] e).chainAll after).shape ≠ .lambda := by
  refine shape_chainAll_ne_lambda fun _ => ?_
  rw [shape_iterate_convert]
  decide

theorem compileSearch_congr {schema : Schema} {settings : Settings} {e e' : Expr}
    (he : e.shape ≠ .lambda) (he' : e'.shape ≠ .lambda) (h : e.stages = e'.stages)
    (session session' : Session) :
    (compileSearch schema settings e session).1 = (compileSearch schema settings e' session').1 := by
  simp only [compileSearch_fst, SearchPlan.ofExpr, SearchDraft.ofExpr_of_shape he,
    SearchDraft.ofExpr_of_shape he', h]

theorem compileAggregate_congr {schema : Schema} {settings : Settings} {e e' : Expr}
    (h : e.stages = e'.stages) (session session' : Session) :
    (compileAggregate schema settings e session).1
      = (compileAggregate schema settings e' session').1 := by
  simp only [compileAggregate_fst, h]

/-! ## 2. Searches leave a trace

Each part of a search changes some part of the plan: a filter the query text, everything else a part that
is absent otherwise. -/

/-- No filter reads as all rows. -/
theorem Filter.text_ne_star (f : Filter) : f.text ≠ "*" := by
  intro h
  have hlist : f.text.toList = ['*'] := by rw [h]; rfl
  cases f with
  | clause c =>
    obtain ⟨rest, hc⟩ := c.toList_text
    rw [Filter.text, hc] at hlist
    simp at hlist
  | _ => simp [Filter.text] at hlist

namespace SearchDraft

variable (settings : Settings)

theorem add_ne_blank (d : SearchDraft) (part : SearchPart) : d.add settings part ≠ {} := by
  intro h
  cases part with
  | filter f => simpa [add] using congrArg filters h
  | sort key => simpa [add] using congrArg sortBy h
  | select fields => simpa [add] using congrArg returnFields h
  | take count => simpa [add] using congrArg window h
  | skip offset => simpa [add] using congrArg window h
  | single f => simpa [add] using congrArg single h
  | near radius => simpa [add] using congrArg geo h

theorem ofParts_eq_blank_iff (parts : List SearchPart) : ofParts settings parts = {} ↔ parts = [] := by
  cases parts with
  | nil => simp [ofParts]
  | cons part parts => simpa [ofParts] using add_ne_blank settings _ part

theorem queryText_eq_star_iff (filters : List Filter) : queryText filters = "*" ↔ filters = [] := by
  match filters with
  | [] => simp [queryText]
  | [f] => simpa [queryText] using f.text_ne_star
  | f :: g :: filters =>
    have hparenthesis : queryText (f :: g :: filters) ≠ "*" := by
      intro h
      simpa [queryText] using congrArg String.toList h
    simp [hparenthesis]

theorem length_queryText_le {filters : List Filter} (hne : filters ≠ []) :
    (queryText filters).length ≤ (" ".intercalate (filters.map Filter.text)).length + 2 := by
  match filters with
  | [] => exact absurd rfl hne
  | [f] => simp [queryText]
  | f :: g :: filters =>
    simp only [queryText, String.length_append]
    have hmarks : "(".length = 1 ∧ ")".length = 1 := by decide
    omega

/-- **Filters in front show in the query text**, whatever comes behind them: with filters behind, the
text gets longer. -/
theorem queryText_append_eq_iff (filters more : List Filter) :
    queryText (filters ++ more) = queryText more ↔ filters = [] := by
  constructor
  · intro h
    by_contra hne
    by_cases hmore : more = []
    · rw [hmore, List.append_nil] at h
      exact hne ((queryText_eq_star_iff filters).mp h)
    · have htext : queryText (filters ++ more)
          = "(" ++ " ".intercalate ((filters ++ more).map Filter.text) ++ ")" := by
        match filters, more, hne, hmore with
        | [f], g :: more, _, _ => rfl
        | f :: f' :: filters, g :: more, _, _ => rfl
      have hsplit := String.intercalate_append_of_ne_nil (s := " ")
        (List.map_eq_nil_iff.not.mpr hne : filters.map Filter.text ≠ [])
        (List.map_eq_nil_iff.not.mpr hmore : more.map Filter.text ≠ [])
      have hlonger := congrArg String.length h
      have hbound := length_queryText_le hmore
      have hmarks : "(".length = 1 ∧ ")".length = 1 ∧ " ".length = 1 := by decide
      rw [htext, List.map_append, hsplit] at hlonger
      simp only [String.length_append] at hlonger
      omega
  · rintro rfl
    rfl

/-- A plan without anything is that of a draft without anything. -/
theorem plan_eq_blank_iff (index : String) {d : SearchDraft} :
    d.plan settings index = ({} : SearchDraft).plan settings index ↔ d = {} := by
  constructor
  · intro h
    obtain ⟨filters, single, sortBy, returnFields, window, geo⟩ := d
    simp only [plan, SearchPlan.mk.injEq, true_and] at h
    obtain ⟨hfilters, rfl, rfl, hwindow, rfl⟩ := h
    obtain rfl := (queryText_eq_star_iff filters).mp hfilters
    cases single with
    | true => simp at hwindow
    | false =>
      obtain rfl : window = none := hwindow
      rfl
  · rintro rfl
    rfl

/-- **Only a root asks for nothing.** -/
theorem ofExpr_eq_blank_iff {schema : Schema} {e : Expr} {d : SearchDraft}
    (h : ofExpr schema settings e = .ok d) : d = {} ↔ e.shape ≠ .call ∧ e.shape ≠ .lambda := by
  by_cases hlambda : e.shape = .lambda
  · cases e with
    | lambda body =>
      obtain ⟨f, -, h⟩ := Compiled.bind_eq_ok.mp h
      cases h
      simp [hlambda]
    | _ => cases hlambda
  · obtain ⟨parts, hparts, rfl⟩ := (ofExpr_eq_ok hlambda).mp h
    have hstages : parts = [] ↔ e.stages = [] := by
      rw [← List.length_eq_zero_iff, ← hparts.length_eq, List.length_reverse,
        List.length_eq_zero_iff]
    rw [ofParts_eq_blank_iff, hstages, Expr.stages_eq_nil_iff]
    exact (and_iff_left hlambda).symm

end SearchDraft

/-- The parts of a chain on an expression that is no bare filter, below and above. -/
theorem compileSearch_chainAll_eq_ok {schema : Schema} {settings : Settings} {session : Session}
    {e : Expr} {after : List Stage} {p : SearchPlan} (he : (e.chainAll after).shape ≠ .lambda)
    (h : (compileSearch schema settings (e.chainAll after) session).1 = .ok p) :
    ∃ index below above, schema.indexName = some index ∧
      List.Forall₂ (fun s part => SearchPart.ofStage schema s = .ok part) e.stages.reverse below ∧
      List.Forall₂ (fun s part => SearchPart.ofStage schema s = .ok part) after above ∧
      (SearchDraft.ofParts settings (below ++ above)).plan settings index = p := by
  obtain ⟨index, parts, hindex, hparts, rfl⟩ := (compileSearch_eq_ok he).mp h
  rw [Expr.stages_chainAll, List.reverse_append, List.reverse_reverse] at hparts
  have haccepted := Compiled.exists_forall₂_iff.mp ⟨parts, hparts⟩
  obtain ⟨below, hbelow⟩ := Compiled.exists_forall₂_iff.mpr fun s hs =>
    haccepted s (List.mem_append_left after hs)
  obtain ⟨above, habove⟩ := Compiled.exists_forall₂_iff.mpr fun s hs =>
    haccepted s (List.mem_append_right e.stages.reverse hs)
  have hsplit : parts = below ++ above := List.right_unique_forall₂'
    (fun _ _ _ hx hy => Except.ok.inj (hx.symm.trans hy)) hparts (List.rel_append hbelow habove)
  exact ⟨index, below, above, hindex, hbelow, habove, hsplit ▸ rfl⟩

/-- **A conversion around a whole search loses it**, unless there is nothing to lose. -/
theorem compileSearch_convert_eq_iff {schema : Schema} {settings : Settings}
    {session session' : Session} {e : Expr} {p : SearchPlan} (k : Nat)
    (h : (compileSearch schema settings e session').1 = .ok p) :
    (compileSearch schema settings (Expr.convert^[k + 1] e) session).1 = .ok p ↔
      e.shape ≠ .call ∧ e.shape ≠ .lambda := by
  have hshape : (Expr.convert^[k + 1] e).shape ≠ .lambda := Expr.shape_chainAll_convert e k []
  have hconvert : SearchDraft.ofExpr schema settings (Expr.convert^[k + 1] e) = .ok {} := by
    rw [SearchDraft.ofExpr_of_shape hshape, Expr.stages_iterate_convert]
    rfl
  obtain ⟨index, hindex, d, hd, rfl⟩ := compileSearch_eq_ok_plan.mp h
  rw [compileSearch_fst, hindex, Option.elim_some, SearchPlan.ofExpr, hconvert,
    ← SearchDraft.ofExpr_eq_blank_iff settings hd, ← SearchDraft.plan_eq_blank_iff settings index]
  exact (Iff.of_eq (Except.ok.injEq ..)).trans eq_comm

/-- **Filters below a conversion are missing in the query text.** -/
theorem queryText_convert_eq_iff {schema : Schema} {settings : Settings}
    {session session' : Session} {e : Expr} {after : List Stage} {p p' : SearchPlan} (k : Nat)
    (he : after = [] → e.shape ≠ .lambda)
    (h : (compileSearch schema settings (e.chainAll after) session').1 = .ok p)
    (h' : (compileSearch schema settings ((Expr.convert^[k + 1] e).chainAll after) session).1
      = .ok p') :
    p'.queryText = p.queryText ↔ ∀ s ∈ e.stages, s.filter? = none := by
  obtain ⟨_, below, above, -, hbelow, habove, rfl⟩ :=
    compileSearch_chainAll_eq_ok (Expr.shape_chainAll_ne_lambda he) h
  obtain ⟨_, below', above', -, hbelow', habove', rfl⟩ :=
    compileSearch_chainAll_eq_ok (Expr.shape_chainAll_convert e k after) h'
  rw [Expr.stages_iterate_convert] at hbelow'
  obtain rfl : below' = [] := List.forall₂_nil_left_iff.mp hbelow'
  obtain rfl : above' = above := List.right_unique_forall₂'
    (fun _ _ _ hx hy => Except.ok.inj (hx.symm.trans hy)) habove' habove
  -- what was lost in front are the filters of the parts below
  have hlost := List.rel_filterMap
    (fun s part (h : SearchPart.ofStage schema s = .ok part) =>
      (SearchPart.asks_of_ofStage h).rel_filter?) hbelow
  have hnil : below.filterMap SearchPart.filter? = [] ↔ ∀ s ∈ e.stages, s.filter? = none := by
    rw [← List.length_eq_zero_iff, ← hlost.length_eq, List.length_eq_zero_iff,
      List.filterMap_eq_nil_iff]
    simp only [List.mem_reverse]
  rw [← hnil, ← SearchDraft.queryText_append_eq_iff _ (above'.filterMap SearchPart.filter?)]
  simp only [SearchDraft.plan, SearchDraft.filters_ofParts, List.nil_append, List.filterMap_append]
  exact eq_comm

/-! ## 3. Aggregations leave a trace

Here a part leaves a step, a query or a window, but a stage outside the table is no part at all. -/

namespace AggregateDraft

theorem add_ne_blank (settings : Settings) (d : AggregateDraft) (part : AggregatePart) :
    d.add settings part ≠ {} := by
  intro h
  cases part with
  | narrow text => simpa [add] using congrArg queryText h
  | filter text => simpa [add] using congrArg stack h
  | take count => simpa [add] using congrArg window h
  | skip offset => simpa [add] using congrArg window h
  | reduce r =>
    have hstack : Step.pushReduction r d.stack = [] := congrArg stack h
    unfold Step.pushReduction at hstack
    split at hstack <;> cases hstack
  | sort key => simpa [add] using congrArg stack h
  | group fields =>
    have hstack : Step.pushGroup fields d.stack = [] := congrArg stack h
    unfold Step.pushGroup at hstack
    split at hstack <;> cases hstack
  | apply text label => simpa [add] using congrArg stack h

theorem foldl_add_eq_blank_iff (settings : Settings) (parts : List AggregatePart) :
    parts.foldl (add settings) {} = {} ↔ parts = [] := by
  rcases List.eq_nil_or_concat' parts with rfl | ⟨init, last, rfl⟩
  · simp
  · simp [List.foldl_append, add_ne_blank]

theorem plan_eq_blank_iff (index : String) {d : AggregateDraft} :
    d.plan index = ({} : AggregateDraft).plan index ↔ d = {} := by
  obtain ⟨queryText, window, stack⟩ := d
  simp [plan]

end AggregateDraft

/-- A chain asks for nothing exactly if all of its stages are passed over. -/
theorem AggregatePart.ofStages_eq_ok_nil_iff (schema : Schema) (innermost : Bool)
    (stages : List Stage) :
    ofStages schema innermost stages = .ok [] ↔ ∀ s ∈ stages, s.name ∉ aggregateNames := by
  induction stages generalizing innermost with
  | nil => simp [ofStages]
  | cons s stages ih =>
    rw [List.forall_mem_cons, ← ih false]
    constructor
    · intro h
      obtain ⟨part, rest, hpart, hrest, hnil⟩ := ofStages_cons_eq_ok.mp h
      obtain ⟨hnone, rfl⟩ := List.append_eq_nil_iff.mp hnil
      cases part with
      | some part => cases hnone
      | none =>
        cases requests_of_ofStage hpart with
        | passedOver hname => exact ⟨hname, hrest⟩
    · rintro ⟨hname, hrest⟩
      rw [ofStages_cons_of_not_mem hname, hrest]

/-- **A conversion around a whole aggregation loses it**, unless all of it is passed over. -/
theorem compileAggregate_convert_eq_iff {schema : Schema} {settings : Settings}
    {session session' : Session} {e : Expr} {p : AggregatePlan} (k : Nat)
    (h : (compileAggregate schema settings e session').1 = .ok p) :
    (compileAggregate schema settings (Expr.convert^[k + 1] e) session).1 = .ok p ↔
      ∀ s ∈ e.stages, s.name ∉ aggregateNames := by
  obtain ⟨index, hindex, parts, hparts, rfl⟩ := compileAggregate_eq_ok.mp h
  have hnil : parts = [] ↔ ∀ s ∈ e.stages, s.name ∉ aggregateNames := by
    have hiff := AggregatePart.ofStages_eq_ok_nil_iff schema true e.stages.reverse
    simpa only [hparts, Except.ok.injEq, List.mem_reverse] using hiff
  rw [compileAggregate_fst, hindex, Expr.stages_iterate_convert, ← hnil,
    ← AggregateDraft.foldl_add_eq_blank_iff settings, ← AggregateDraft.plan_eq_blank_iff index]
  exact (Iff.of_eq (Except.ok.injEq ..)).trans eq_comm

/-! ## 4. Conversions -/

/-- **What stands below a conversion is lost.**  A chain on an expression in conversions compiles as
it would on any root.  Around a root itself this makes no difference.  Around a whole search it makes
one exactly if there is a stage or a bare filter to be lost, around a whole aggregation if there is a
stage that is not passed over; and within a search, what was lost shows in the query text exactly if
there was a filter. -/
theorem compile_convert (schema : Schema) (settings : Settings) (session session' : Session)
    (e : Expr) (k : Nat) (after : List Stage) :
    (∀ root : Expr, root.shape ≠ .call → (after = [] → root.shape ≠ .lambda) →
      (compileSearch schema settings ((Expr.convert^[k + 1] e).chainAll after) session).1
          = (compileSearch schema settings (root.chainAll after) session').1 ∧
        (compileAggregate schema settings ((Expr.convert^[k + 1] e).chainAll after) session).1
          = (compileAggregate schema settings (root.chainAll after) session').1) ∧
    (∀ p, (compileSearch schema settings e session').1 = .ok p →
      ((compileSearch schema settings (Expr.convert^[k + 1] e) session).1 = .ok p ↔
        e.shape ≠ .call ∧ e.shape ≠ .lambda)) ∧
    (∀ p, (compileAggregate schema settings e session').1 = .ok p →
      ((compileAggregate schema settings (Expr.convert^[k + 1] e) session).1 = .ok p ↔
        ∀ s ∈ e.stages, s.name ∉ aggregateNames)) ∧
    ∀ p p', (after = [] → e.shape ≠ .lambda) →
      (compileSearch schema settings (e.chainAll after) session').1 = .ok p →
      (compileSearch schema settings ((Expr.convert^[k + 1] e).chainAll after) session).1 = .ok p' →
      (p'.queryText = p.queryText ↔ ∀ s ∈ e.stages, s.filter? = none) := by
  refine ⟨?_, fun p => compileSearch_convert_eq_iff k, fun p => compileAggregate_convert_eq_iff k,
    fun p p' => queryText_convert_eq_iff k⟩
  intro root hcall hlambda
  have hstages : ((Expr.convert^[k + 1] e).chainAll after).stages = (root.chainAll after).stages := by
    rw [Expr.stages_chainAll, Expr.stages_iterate_convert, List.append_nil,
      Expr.stages_chainAll_of_root hcall]
  constructor
  · exact compileSearch_congr (Expr.shape_chainAll_convert e k after)
      (Expr.shape_chainAll_ne_lambda hlambda) hstages session session'
  · exact compileAggregate_congr hstages session session'

/-- A filtered source. -/
def fromOslo : Expr :=
  (Expr.constant (.str "people")).chainAll
    [⟨"Where", [.lambda (.binary .eq (.member "city") (.constant (.str "Oslo")))]⟩]

/-- A window on top of it. -/
def firstTen : Stage := ⟨"Take", [.constant (.num (.whole 10))]⟩

/-- The plan of both. -/
def firstTenFromOslo : SearchPlan where
  indexName := "people"
  queryText := "(@city:\x7bOslo\x7d)"
  window := some ⟨0, 10⟩

/-- A conversion between them loses the filter and keeps the window. -/
theorem compile_convert_fromOslo :
    (compileSearch citySchema {} (fromOslo.chainAll [firstTen]) {}).1 = .ok firstTenFromOslo ∧
    (compileSearch citySchema {} ((Expr.convert^[1] fromOslo).chainAll [firstTen]) {}).1
      = .ok { firstTenFromOslo with queryText := "*" } ∧
    (compileSearch citySchema {} (Expr.convert^[1] (fromOslo.chainAll [firstTen])) {}).1
      ≠ .ok firstTenFromOslo ∧
    (compileAggregate citySchema {} (Expr.convert^[1] fromOslo) {}).1
      ≠ .ok ⟨"people", some "(@city:\x7bOslo\x7d)", none, []⟩ ∧
    ¬ ∀ s ∈ fromOslo.stages, s.filter? = none := by
  have hplan : (compileSearch citySchema {} (fromOslo.chainAll [firstTen]) {}).1
      = .ok firstTenFromOslo := by rfl
  have haggregate : (compileAggregate citySchema {} fromOslo {}).1
      = .ok ⟨"people", some "(@city:\x7bOslo\x7d)", none, []⟩ := by rfl
  obtain ⟨hroot, -, haround, hquery⟩ := compile_convert citySchema {} {} {} fromOslo 0 [firstTen]
  have hlost : (compileSearch citySchema {} ((Expr.convert^[1] fromOslo).chainAll [firstTen]) {}).1
      = .ok { firstTenFromOslo with queryText := "*" } :=
    (hroot (.constant (.str "people")) (by decide) (by simp)).1.trans (by rfl)
  refine ⟨hplan, hlost, ?_, ?_, ?_⟩
  · intro h
    have hwhole := (compile_convert citySchema {} {} {} (fromOslo.chainAll [firstTen]) 0 []).2.1
    exact ((hwhole _ hplan).mp h).1 rfl
  · intro h
    exact (haround _ haggregate).mp h _ (List.mem_singleton_self _) (by decide)
  · rw [← hquery _ _ (by simp) hplan hlost]
    decide

end IndexQuery
