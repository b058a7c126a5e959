/-
# What a search chain describes

The compiler walks a search chain from the outside in and fills a draft: filters are put in front of
those found before, and of the other parts the one met first is kept.  `SearchPlan.DescribedBy` says
what should come out in the order of the chain, with no walk in it: the query text is made of the
filters of all stages, in chain order, and the sort key, the returned fields and the radius are those
of the stage chained last.

The main result (`compileSearch_describedBy`) is that every plan is the one described, and that two
neighbours in a chain may change places unless both set the same part of it: the other chain is
accepted too, and its plan differs in the window at most.
-/
import IndexQuery.Compile.Search
import IndexQuery.Proofs.Chain
import IndexQuery.Proofs.Compiled

namespace IndexQuery

/-! ## 1. The plan that a chain describes -/

/-- The stages that ask for a single row. -/
def singleNames : List String := ["First", "FirstOrDefault", "Any"]

/-- The filter that a stage carries: the one of a `Where`, or one that narrows a single row. -/
def Stage.filter? (s : Stage) : Option Expr :=
  if s.name ∈ "Where" :: singleNames then s.args.head? else none

/-- The stage chained last among those with one of the names. -/
def lastNamed? (names : List String) (stages : List Stage) : Option Stage :=
  stages.findRev? (·.name ∈ names)

/-- The query text of filter texts: everything, the only one, or all of them in parentheses. -/
def conjoined : List String → String
  | [] => "*"
  | [t] => t
  | ts => "(" ++ " ".intercalate ts ++ ")"

/-- **The plan that a chain describes**, up to its window. -/
structure SearchPlan.DescribedBy (schema : Schema) (stages : List Stage) (p : SearchPlan) : Prop where
  index : schema.indexName = some p.indexName
  query : ∃ texts, List.Forall₂ (fun e t => filterText schema e = .ok t)
    (stages.filterMap Stage.filter?) texts ∧ p.queryText = conjoined texts
  sort : Option.Rel (fun s key => s.sortKey = .ok key) (lastNamed? sortNames stages) p.sortBy
  fields : Option.Rel (fun s fields => (s.arg 0 >>= Expr.projection) = .ok fields)
    (lastNamed? ["Select"] stages) p.returnFields
  radius : Option.Rel (fun s radius => Filter.geoRadius schema s.args = .ok radius)
    (lastNamed? ["GeoFilter"] stages) p.geo

/-- The parts of a plan that a stage may set, the window aside. -/
inductive PlanPart where
  | query | sort | fields | radius
  deriving DecidableEq

/-- A stage sets a part of the plan. -/
def Stage.Sets (s : Stage) : PlanPart → Prop
  | .query => s.filter?.isSome = true
  | .sort => s.name ∈ sortNames
  | .fields => s.name ∈ ["Select"]
  | .radius => s.name ∈ ["GeoFilter"]

/-! ## 2. Stages

What a stage asks for has nothing to do with the chain around it, and neither have the rules. -/

/-- **What a stage asks for**, rule by rule. -/
inductive Stage.Asks (schema : Schema) (s : Stage) : SearchPart → Prop
  | filter {e : Expr} {f : Filter} : s.name = "Where" → s.args.head? = some e →
      Filter.ofExpr schema e = .ok f → Asks schema s (.filter f)
  | sort {key : SortKey} : s.name ∈ sortNames → s.sortKey = .ok key → Asks schema s (.sort key)
  | select {fields : List String} : s.name = "Select" →
      (s.arg 0 >>= Expr.projection) = .ok fields → Asks schema s (.select fields)
  | take {count : UInt64} : s.name = "Take" → Asks schema s (.take count)
  | skip {offset : UInt64} : s.name = "Skip" → Asks schema s (.skip offset)
  | single : s.name ∈ singleNames → s.args = [] → Asks schema s (.single none)
  | singleWhere {e : Expr} {f : Filter} : s.name ∈ singleNames → s.args.head? = some e →
      Filter.ofExpr schema e = .ok f → Asks schema s (.single (some f))
  | near {radius : GeoRadius} : s.name = "GeoFilter" →
      Filter.geoRadius schema s.args = .ok radius → Asks schema s (.near radius)

theorem SearchPart.asks_of_ofStage {schema : Schema} {s : Stage} {part : SearchPart}
    (h : ofStage schema s = .ok part) : s.Asks schema part := by
  have hsort (hname : s.name ∈ sortNames) {direction : Direction}
      (hdirection : direction = if s.name = "OrderBy" then .asc else .desc)
      (h : (do
        let field ← (← s.arg 0).resolveField
        return SearchPart.sort ⟨field, direction⟩) = Except.ok part) : s.Asks schema part := by
    obtain ⟨e, he, h⟩ := Compiled.bind_eq_ok.mp h
    obtain ⟨field, hfield, h⟩ := Compiled.bind_eq_ok.mp h
    cases h
    subst hdirection
    exact .sort hname (Stage.sortKey_eq_ok he hfield)
  unfold ofStage at h
  split at h
  · next hname =>
    obtain ⟨e, he, h⟩ := Compiled.bind_eq_ok.mp h
    obtain ⟨f, hf, h⟩ := Compiled.bind_eq_ok.mp h
    cases h
    exact .filter hname (Stage.head?_args_of_arg he) hf
  · next hname => exact hsort (by simp [sortNames, hname]) (by simp [hname]) h
  · next hname => exact hsort (by simp [sortNames, hname]) (by simp [hname]) h
  · next hname =>
    obtain ⟨e, he, h⟩ := Compiled.bind_eq_ok.mp h
    obtain ⟨fields, hfields, h⟩ := Compiled.bind_eq_ok.mp h
    cases h
    exact .select hname (Compiled.bind_eq_ok.mpr ⟨e, he, hfields⟩)
  · next hname =>
    obtain ⟨count, -, rfl⟩ := Compiled.map_eq_ok.mp h
    exact .take hname
  · next hname =>
    obtain ⟨offset, -, rfl⟩ := Compiled.map_eq_ok.mp h
    exact .skip hname
  iterate 3
    next hname =>
      have hsingle : s.name ∈ singleNames := by simp [singleNames, hname]
      split at h
      · next hargs =>
        cases h
        exact .single hsingle hargs
      · next e rest hargs =>
        obtain ⟨f, hf, h⟩ := Compiled.bind_eq_ok.mp h
        cases h
        exact .singleWhere hsingle (by rw [hargs]; rfl) hf
  · next hname =>
    obtain ⟨radius, hradius, rfl⟩ := Compiled.map_eq_ok.mp h
    exact .near hname hradius
  · cases h

/-! ## 3. The draft of a chain

The parts of a draft do not depend on each other, so each of them is followed through the chain by itself.
The walk is from the outside in, and `ofParts` is that walk in chain order. -/

namespace SearchPart

/-- The filter of a part. -/
def filter? : SearchPart → Option Filter
  | filter f => some f
  | single f? => f?
  | _ => none

/-- The sort key of a part. -/
def sort? : SearchPart → Option SortKey
  | sort key => some key
  | _ => none

/-- The returned fields of a part. -/
def select? : SearchPart → Option (List String)
  | select fields => some fields
  | _ => none

/-- The radius of a part. -/
def near? : SearchPart → Option GeoRadius
  | near radius => some radius
  | _ => none

end SearchPart

namespace SearchDraft

variable (settings : Settings) (d : SearchDraft) (part : SearchPart)

@[simp] theorem filters_add :
    (d.add settings part).filters = part.filter?.toList ++ d.filters := by
  cases part <;> rfl

@[simp] theorem sortBy_add : (d.add settings part).sortBy = d.sortBy.or part.sort? := by
  cases part <;> simp [add, SearchPart.sort?]

@[simp] theorem returnFields_add :
    (d.add settings part).returnFields = d.returnFields.or part.select? := by
  cases part <;> simp [add, SearchPart.select?]

@[simp] theorem geo_add : (d.add settings part).geo = d.geo.or part.near? := by
  cases part <;> simp [add, SearchPart.near?]

/-- The draft of a chain whose stages ask for the parts, in chain order. -/
def ofParts (parts : List SearchPart) : SearchDraft :=
  parts.foldr (fun part d => d.add settings part) {}

/-- **Filters stand in chain order.** -/
theorem filters_ofParts (parts : List SearchPart) :
    (ofParts settings parts).filters = parts.filterMap SearchPart.filter? := by
  induction parts with
  | nil => rfl
  | cons part parts ih =>
    change ((ofParts settings parts).add settings part).filters = _
    rw [filters_add, ih]
    cases h : part.filter? <;> simp [h]

end SearchDraft

/-! ### What is chained last

The sort key, the fields and the radius are kept once they are set.  That is one lemma for all three, about a
field of the draft and the part that sets it. -/

theorem lastNamed?_cons (names : List String) (s : Stage) (stages : List Stage) :
    lastNamed? names (s :: stages)
      = (lastNamed? names stages).or (if s.name ∈ names then some s else none) := by
  simp only [lastNamed?, List.findRev?, decide_eq_true_eq]
  cases List.findRev? (fun s => decide (s.name ∈ names)) stages <;> rfl

theorem rel_or {α β : Type} {R : α → β → Prop} {a c : Option α} {b d : Option β}
    (h : Option.Rel R a b) (h' : Option.Rel R c d) : Option.Rel R (a.or c) (b.or d) := by
  cases h with
  | some hab => exact .some hab
  | none => exact h'

section LastChained

variable {β : Type} {schema : Schema} {settings : Settings} {names : List String}
  {R : Stage → β → Prop} (part? : SearchPart → Option β) (field : SearchDraft → Option β)

/-- **Of the stages with some names the one chained last decides** on a field of the draft that is
kept once it is set. -/
theorem SearchDraft.rel_lastNamed? (hempty : field {} = none)
    (hadd : ∀ d part, field (SearchDraft.add settings d part) = (field d).or (part? part))
    (hasks : ∀ s part, s.Asks schema part →
      Option.Rel R (if s.name ∈ names then some s else none) (part? part))
    {stages : List Stage} {parts : List SearchPart}
    (h : List.Forall₂ (Stage.Asks schema) stages parts) :
    Option.Rel R (lastNamed? names stages) (field (ofParts settings parts)) := by
  induction h with
  | nil =>
    rw [ofParts, List.foldr_nil, hempty]
    exact .none
  | @cons s part stages parts hs _ ih =>
    have hfield : field (ofParts settings (part :: parts))
        = (field (ofParts settings parts)).or (part? part) := hadd _ _
    rw [hfield, lastNamed?_cons]
    exact rel_or ih (hasks s part hs)

end LastChained

/-! ### What a stage asks for, part by part -/

namespace Stage.Asks

variable {schema : Schema} {s : Stage} {part : SearchPart}

theorem rel_filter? (h : s.Asks schema part) :
    Option.Rel (fun e f => Filter.ofExpr schema e = .ok f) s.filter? part.filter? := by
  cases h with
  | filter hname harg hf =>
    have hfilter : s.filter? = s.args.head? := if_pos (by simp [hname])
    rw [hfilter, harg]
    exact .some hf
  | singleWhere hname harg hf =>
    have hfilter : s.filter? = s.args.head? := if_pos (List.mem_cons_of_mem _ hname)
    rw [hfilter, harg]
    exact .some hf
  | single hname hargs =>
    have hfilter : s.filter? = s.args.head? := if_pos (List.mem_cons_of_mem _ hname)
    rw [hfilter, hargs]
    exact .none
  | _ =>
    have hfilter : s.filter? = none := if_neg (by grind [sortNames, singleNames])
    rw [hfilter]
    exact .none

theorem rel_sort? (h : s.Asks schema part) :
    Option.Rel (fun s key => s.sortKey = .ok key) (if s.name ∈ sortNames then some s else none)
      part.sort? := by
  cases h with
  | sort hname hkey =>
    rw [if_pos hname]
    exact .some hkey
  | _ =>
    rw [if_neg (by grind [sortNames, singleNames])]
    exact .none

theorem rel_select? (h : s.Asks schema part) :
    Option.Rel (fun s fields => (s.arg 0 >>= Expr.projection) = .ok fields)
      (if s.name ∈ ["Select"] then some s else none) part.select? := by
  cases h with
  | select hname hfields =>
    rw [if_pos (by simp [hname])]
    exact .some hfields
  | _ =>
    rw [if_neg (by grind [sortNames, singleNames])]
    exact .none

theorem rel_near? (h : s.Asks schema part) :
    Option.Rel (fun s radius => Filter.geoRadius schema s.args = .ok radius)
      (if s.name ∈ ["GeoFilter"] then some s else none) part.near? := by
  cases h with
  | near hname hradius =>
    rw [if_pos (by simp [hname])]
    exact .some hradius
  | _ =>
    rw [if_neg (by grind [sortNames, singleNames])]
    exact .none

end Stage.Asks

/-! ## 4. The plan -/

theorem compileSearch_fst (schema : Schema) (settings : Settings) (e : Expr) (s : Session) :
    (compileSearch schema settings e s).1
      = schema.indexName.elim (.error .missingIndex) fun index =>
        SearchPlan.ofExpr schema settings index e := by
  cases h : schema.indexName with
  | none => simp [compileSearch, h, observed]
  | some index =>
    rw [compileSearch, h, observed_fst]
    rfl

theorem SearchDraft.ofExpr_of_shape {schema : Schema} {settings : Settings} {e : Expr}
    (he : e.shape ≠ .lambda) :
    ofExpr schema settings e
      = (e.stages.mapM (SearchPart.ofStage schema)).map fun parts =>
        parts.foldl (add settings) {} := by
  cases e with
  | lambda body => exact absurd rfl he
  | _ => rfl

/-- **A chain is drafted part by part**, and it is accepted exactly if each of its stages is. -/
theorem SearchDraft.ofExpr_eq_ok {schema : Schema} {settings : Settings} {e : Expr}
    (he : e.shape ≠ .lambda) {d : SearchDraft} :
    ofExpr schema settings e = .ok d ↔
      ∃ parts, List.Forall₂ (fun s part => SearchPart.ofStage schema s = .ok part)
          e.stages.reverse parts ∧
        ofParts settings parts = d := by
  rw [ofExpr_of_shape he, Compiled.map_eq_ok]
  constructor
  · rintro ⟨parts, hparts, rfl⟩
    refine ⟨parts.reverse, ?_, ?_⟩
    · exact List.forall₂_reverse_iff.mpr (Compiled.mapM_eq_ok.mp hparts)
    · rw [ofParts, List.foldr_reverse]
  · rintro ⟨parts, hparts, rfl⟩
    refine ⟨parts.reverse, ?_, ?_⟩
    · rw [Compiled.mapM_eq_ok, ← List.forall₂_reverse_iff, List.reverse_reverse]
      exact hparts
    · rw [ofParts, List.foldl_reverse]

theorem SearchDraft.queryText_eq_conjoined (filters : List Filter) :
    queryText filters = conjoined (filters.map Filter.text) := by
  match filters with
  | [] => rfl
  | [_] => rfl
  | _ :: _ :: _ => rfl

/-- The plan of parts is the one that their stages describe. -/
theorem SearchDraft.describedBy_plan {schema : Schema} (settings : Settings) {index : String}
    {stages : List Stage} {parts : List SearchPart} (hindex : schema.indexName = some index)
    (hparts : List.Forall₂ (fun s part => SearchPart.ofStage schema s = .ok part) stages parts) :
    ((ofParts settings parts).plan settings index).DescribedBy schema stages := by
  have hasks : List.Forall₂ (Stage.Asks schema) stages parts :=
    hparts.imp fun _ _ => SearchPart.asks_of_ofStage
  refine ⟨hindex, ⟨(ofParts settings parts).filters.map Filter.text, ?_, ?_⟩, ?_, ?_, ?_⟩
  · rw [filters_ofParts, List.forall₂_map_right_iff]
    refine (List.rel_filterMap (fun _ _ h => h.rel_filter?) hasks).imp fun e f hf => ?_
    exact Compiled.map_eq_ok.mpr ⟨f, hf, rfl⟩
  · exact queryText_eq_conjoined _
  · exact rel_lastNamed? SearchPart.sort? sortBy rfl (sortBy_add settings)
      (fun _ _ => Stage.Asks.rel_sort?) hasks
  · exact rel_lastNamed? SearchPart.select? returnFields rfl (returnFields_add settings)
      (fun _ _ => Stage.Asks.rel_select?) hasks
  · exact rel_lastNamed? SearchPart.near? geo rfl (geo_add settings)
      (fun _ _ => Stage.Asks.rel_near?) hasks

/-- What a search compiles to: its index is declared, and its plan is that of its draft. -/
theorem compileSearch_eq_ok_plan {schema : Schema} {settings : Settings} {session : Session}
    {e : Expr} {p : SearchPlan} :
    (compileSearch schema settings e session).1 = .ok p ↔
      ∃ index, schema.indexName = some index ∧
        ∃ d, SearchDraft.ofExpr schema settings e = .ok d ∧ d.plan settings index = p := by
  simp only [compileSearch_fst, Compiled.elim_eq_ok, SearchPlan.ofExpr, Compiled.map_eq_ok]

/-- The same for a chain, with its parts. -/
theorem compileSearch_eq_ok {schema : Schema} {settings : Settings} {session : Session} {e : Expr}
    {p : SearchPlan} (he : e.shape ≠ .lambda) :
    (compileSearch schema settings e session).1 = .ok p ↔
      ∃ index parts, schema.indexName = some index ∧
        List.Forall₂ (fun s part => SearchPart.ofStage schema s = .ok part) e.stages.reverse parts ∧
        (SearchDraft.ofParts settings parts).plan settings index = p := by
  rw [compileSearch_eq_ok_plan]
  constructor
  · rintro ⟨index, hindex, d, hd, rfl⟩
    obtain ⟨parts, hparts, rfl⟩ := (SearchDraft.ofExpr_eq_ok he).mp hd
    exact ⟨index, parts, hindex, hparts, rfl⟩
  · rintro ⟨index, parts, hindex, hparts, rfl⟩
    exact ⟨index, hindex, _, (SearchDraft.ofExpr_eq_ok he).mpr ⟨parts, hparts, rfl⟩, rfl⟩

/-! ## 5. Neighbours that change places

The description is symmetric in two neighbours as far as they set different parts.  The window is left out
of it: a count and an offset that change places may meet a different default. -/

section Exchange

variable {s t : Stage} (before after : List Stage)

theorem lastNamed?_exchange {names : List String} (h : ¬ (s.name ∈ names ∧ t.name ∈ names)) :
    lastNamed? names (before ++ t :: s :: after) = lastNamed? names (before ++ s :: t :: after) := by
  induction before with
  | nil =>
    simp only [List.nil_append, lastNamed?_cons, Option.or_assoc]
    by_cases hs : s.name ∈ names
    · have ht : t.name ∉ names := fun ht => h ⟨hs, ht⟩
      rw [if_neg ht, Option.or_none, Option.none_or]
    · rw [if_neg hs, Option.or_none, Option.none_or]
  | cons first before ih =>
    rw [List.cons_append, lastNamed?_cons, ih, List.cons_append, lastNamed?_cons]

theorem filterMap_filter?_exchange (h : ¬ (s.filter?.isSome = true ∧ t.filter?.isSome = true)) :
    (before ++ t :: s :: after).filterMap Stage.filter?
      = (before ++ s :: t :: after).filterMap Stage.filter? := by
  cases hs : s.filter? with
  | none => simp [List.filterMap_append, List.filterMap_cons, hs]
  | some e =>
    have ht : t.filter? = none := by simpa [hs] using h
    simp [List.filterMap_append, List.filterMap_cons, ht]

end Exchange

theorem rel_ok_unique {α β : Type} {f : α → Compiled β} {o : Option α} {a b : Option β}
    (ha : Option.Rel (fun x y => f x = .ok y) o a) (hb : Option.Rel (fun x y => f x = .ok y) o b) :
    a = b := by
  cases ha with
  | none =>
    cases hb
    rfl
  | some ha =>
    cases hb with
    | some hb => rw [Except.ok.inj (ha.symm.trans hb)]

/-- Chains with the same filters and the same last stages describe one plan, up to its window. -/
theorem SearchPlan.DescribedBy.eq_of_same {schema : Schema} {stages stages' : List Stage}
    {p p' : SearchPlan} (h : p.DescribedBy schema stages) (h' : p'.DescribedBy schema stages')
    (hfilters : stages'.filterMap Stage.filter? = stages.filterMap Stage.filter?)
    (hlast : ∀ names ∈ [sortNames, ["Select"], ["GeoFilter"]],
      lastNamed? names stages' = lastNamed? names stages) :
    p' = { p with window := p'.window } := by
  obtain ⟨texts, htexts, hquery⟩ := h.query
  obtain ⟨texts', htexts', hquery'⟩ := h'.query
  have htext : texts' = texts := by
    rw [hfilters] at htexts'
    exact List.right_unique_forall₂' (fun _ _ _ ha hb => Except.ok.inj (ha.symm.trans hb))
      htexts' htexts
  have hindex : p'.indexName = p.indexName := Option.some.inj (h'.index.symm.trans h.index)
  have hsort : p'.sortBy = p.sortBy :=
    rel_ok_unique (hlast sortNames (by simp) ▸ h'.sort) h.sort
  have hfields : p'.returnFields = p.returnFields :=
    rel_ok_unique (hlast ["Select"] (by simp) ▸ h'.fields) h.fields
  have hradius : p'.geo = p.geo :=
    rel_ok_unique (hlast ["GeoFilter"] (by simp) ▸ h'.radius) h.radius
  rw [← hindex, ← hsort, ← hfields, ← hradius, hquery, ← htext, ← hquery']

/-- **A plan is the one that its chain describes**, and two neighbours of a chain may change places
unless both set the same part of the plan. -/
theorem compileSearch_describedBy (schema : Schema) (settings : Settings) (session : Session)
    (root : Expr) (stages : List Stage) {p : SearchPlan} (hroot : root.shape ≠ .call)
    (hne : stages ≠ [])
    (h : (compileSearch schema settings (root.chainAll stages) session).1 = .ok p) :
    p.DescribedBy schema stages ∧
    ∀ before s t after, stages = before ++ s :: t :: after →
      (∀ part, ¬ (s.Sets part ∧ t.Sets part)) → ∀ session',
        ∃ p', (compileSearch schema settings (root.chainAll (before ++ t :: s :: after))
            session').1 = .ok p' ∧
          p' = { p with window := p'.window } := by
  have hshape {ss : List Stage} (hss : ss ≠ []) : (root.chainAll ss).shape ≠ .lambda :=
    Expr.shape_chainAll_ne_lambda fun h => absurd h hss
  have hstages (ss : List Stage) : (root.chainAll ss).stages.reverse = ss := by
    rw [Expr.stages_chainAll_of_root hroot, List.reverse_reverse]
  obtain ⟨index, parts, hindex, hparts, rfl⟩ := (compileSearch_eq_ok (hshape hne)).mp h
  rw [hstages] at hparts
  have hdescribed := SearchDraft.describedBy_plan settings hindex hparts
  refine ⟨hdescribed, ?_⟩
  rintro before s t after rfl hsets session'
  have haccepted : ∀ stage ∈ before ++ s :: t :: after,
      ∃ part, SearchPart.ofStage schema stage = .ok part :=
    Compiled.exists_forall₂_iff.mp ⟨parts, hparts⟩
  obtain ⟨parts', hparts'⟩ : ∃ parts', List.Forall₂
      (fun s part => SearchPart.ofStage schema s = .ok part) (before ++ t :: s :: after) parts' := by
    refine Compiled.exists_forall₂_iff.mpr fun stage hstage => haccepted stage ?_
    simp only [List.mem_append, List.mem_cons] at hstage ⊢
    grind
  refine ⟨_, (compileSearch_eq_ok (hshape (by simp))).mpr
    ⟨index, parts', hindex, by rwa [hstages], rfl⟩, ?_⟩
  refine hdescribed.eq_of_same (SearchDraft.describedBy_plan settings hindex hparts')
    (filterMap_filter?_exchange before after (hsets .query)) ?_
  intro names hnames
  simp only [List.mem_cons, List.not_mem_nil, or_false] at hnames
  rcases hnames with rfl | rfl | rfl
  · exact lastNamed?_exchange before after (hsets .sort)
  · exact lastNamed?_exchange before after (hsets .fields)
  · exact lastNamed?_exchange before after (hsets .radius)

/-- A schema with a tag and a number. -/
def citySchema : Schema :=
  ((Schema.declare (some "people")).withField "city" .tag).withField "age" .numeric

/-- A filter. -/
def adults : Stage :=
  ⟨"Where", [.lambda (.binary .gt (.member "age") (.constant (.num (.whole 21))))]⟩

/-- A sort key, which is another part of the plan. -/
def eldestFirst : Stage :=
  ⟨"OrderByDescending", [.member "age"]⟩

/-- A chain around them with a second filter and a second sort key. -/
def cityChain (first second : Stage) : List Stage :=
  [⟨"OrderBy", [.member "city"]⟩, first, second, ⟨"Select", [.record ["city", "age"]]⟩,
   ⟨"First", [.binary .eq (.member "city") (.constant (.str "Oslo"))]⟩]

/-- The plan of that chain. -/
def cityPlan : SearchPlan where
  indexName := "people"
  queryText := "((@age:[(21 inf]) (@city:\x7bOslo\x7d))"
  sortBy := some ⟨"age", .desc⟩
  returnFields := some ["city", "age"]
  window := some ⟨0, 1⟩

theorem compileSearch_describedBy_cityChain :
    (compileSearch citySchema {}
      ((Expr.constant (.str "people")).chainAll (cityChain adults eldestFirst)) {}).1
      = .ok cityPlan ∧
    cityPlan.DescribedBy citySchema (cityChain adults eldestFirst) ∧
    ∃ p', (compileSearch citySchema {}
        ((Expr.constant (.str "people")).chainAll (cityChain eldestFirst adults)) {}).1 = .ok p' ∧
      p' = { cityPlan with window := p'.window } := by
  have hcompiles : (compileSearch citySchema {}
      ((Expr.constant (.str "people")).chainAll (cityChain adults eldestFirst)) {}).1
      = .ok cityPlan := by rfl
  have hsets : ∀ part, ¬ (adults.Sets part ∧ eldestFirst.Sets part) := by
    intro part
    cases part <;> simp [Stage.Sets, Stage.filter?, adults, eldestFirst, sortNames, singleNames]
  obtain ⟨hdescribed, hexchange⟩ := compileSearch_describedBy citySchema {} {}
    (.constant (.str "people")) (cityChain adults eldestFirst) (by decide) (by simp [cityChain])
    hcompiles
  exact ⟨hcompiles, hdescribed, hexchange [_] adults eldestFirst [_, _] rfl hsets {}⟩

end IndexQuery
