/-
# Which window a chain compiles to

Both compiles make the window with the same two operations: a count or an offset is set, and whichever
comes first makes a window with the default of the other.  A search meets the stages from the outside
in and an aggregation from the inside out, so where several stages set the same part, a search keeps
the one chained first and an aggregation the one chained last.  A single row is one more count for an
aggregation, while a search puts it above all counts.

The order of offsets and counts among each other makes no difference: a window made step by step is the
window of the last offset and the last count, each with its default (`Window.foldr_eq_of?`).  Hence
the main result, `compile_window`, and that the two compiles agree on every chain that sets each part
once at most.
-/
import IndexQuery.Proofs.Aggregate.Segments
import IndexQuery.Proofs.Search.Assembly

namespace IndexQuery

/-! ## 1. What a window is made of -/

/-- The stage chained first among those with one of the names. -/
def firstNamed? (names : List String) (stages : List Stage) : Option Stage :=
  stages.find? (·.name ∈ names)

/-- The stages of an aggregation that set a count. -/
def countNames : List String := ["Take", "First", "FirstOrDefault"]

/-- The count that such a stage asks for: its argument, or a single row. -/
def Stage.rows (s : Stage) : Compiled UInt64 :=
  if s.name = "Take" then s.countArg 0 else .ok 1

namespace Window

/-- **A window with the offset and the count asked for**, each with its default. -/
structure Follows (settings : Settings) (offset count : Option (Compiled UInt64)) (w : Window) :
    Prop where
  offset : offset.getD (.ok settings.offset) = .ok w.offset
  count : count.getD (.ok settings.pageSize) = .ok w.count

/-- The window of an offset and a count, each with its default; there is none if both are missing. -/
def of? (settings : Settings) : Option UInt64 → Option UInt64 → Option Window
  | none, none => none
  | offset, count => some ⟨offset.getD settings.offset, count.getD settings.pageSize⟩

variable {settings : Settings}

/-- A count that is set replaces the count. -/
theorem some_take_of? {window : Option Window} {o c : Option UInt64} (h : window = of? settings o c)
    (count : UInt64) : some (take settings count window) = of? settings o (some count) := by
  subst h
  cases o <;> cases c <;> rfl

/-- An offset that is set replaces the offset. -/
theorem some_skip_of? {window : Option Window} {o c : Option UInt64} (h : window = of? settings o c)
    (offset : UInt64) : some (skip settings offset window) = of? settings (some offset) c := by
  subst h
  cases o <;> cases c <;> rfl

theorem of?_eq_none_iff {o c : Option UInt64} : of? settings o c = none ↔ o = none ∧ c = none := by
  cases o <;> cases c <;> simp [of?]

theorem follows_of? {o c : Option UInt64} {w : Window} (h : of? settings o c = some w) :
    w.Follows settings (o.map .ok) (c.map .ok) := by
  cases o <;> cases c <;> cases h <;> exact ⟨rfl, rfl⟩

/-- **A window made step by step** is that of the offset and the count set last.  By induction on the
steps; the one in front is taken last. -/
theorem foldr_eq_of? {δ α : Type} (window : δ → Option Window) {add : α → δ → δ}
    {offset? count? : α → Option UInt64}
    (hadd : ∀ a d o c, window d = of? settings o c →
      window (add a d) = of? settings ((offset? a).or o) ((count? a).or c))
    {d : δ} (hd : window d = none) (parts : List α) :
    window (parts.foldr add d)
      = of? settings (parts.findSome? offset?) (parts.findSome? count?) := by
  induction parts with
  | nil => exact hd
  | cons part parts ih =>
    have hcons {β : Type} (f : α → Option β) :
        (part :: parts).findSome? f = (f part).or (parts.findSome? f) := by
      rw [List.findSome?_cons]
      cases f part <;> rfl
    rw [List.foldr_cons, hadd part _ _ _ ih, hcons, hcons]

end Window

/-! ## 2. Searches -/

theorem firstNamed?_cons (names : List String) (s : Stage) (stages : List Stage) :
    firstNamed? names (s :: stages)
      = (if s.name ∈ names then some s else none).or (firstNamed? names stages) := by
  rw [firstNamed?, List.find?_cons]
  by_cases hname : s.name ∈ names
  · simp [hname]
  · simp [hname, firstNamed?]

theorem firstNamed?_eq_none_iff {names : List String} {stages : List Stage} :
    firstNamed? names stages = none ↔ ∀ s ∈ stages, s.name ∉ names := by
  simp [firstNamed?]

namespace SearchPart

/-- The offset of a part. -/
def offset? : SearchPart → Option UInt64
  | skip offset => some offset
  | _ => none

/-- The count of a part, single rows aside. -/
def count? : SearchPart → Option UInt64
  | take count => some count
  | _ => none

/-- A part that asks for a single row. -/
def isSingle : SearchPart → Bool
  | single _ => true
  | _ => false

/-- What a stage asks of the window, by its name. -/
theorem window_of_ofStage {schema : Schema} {s : Stage} {part : SearchPart}
    (h : ofStage schema s = .ok part) :
    (if s.name ∈ ["Skip"] then some (s.countArg 0) else none) = part.offset?.map .ok ∧
    (if s.name ∈ ["Take"] then some (s.countArg 0) else none) = part.count?.map .ok ∧
    decide (s.name ∈ singleNames) = part.isSingle := by
  have hasks := asks_of_ofStage h
  obtain ⟨name, args⟩ := s
  cases hasks with
  | take hname =>
    obtain rfl : name = "Take" := hname
    obtain ⟨count, hcount, hpart⟩ := Compiled.map_eq_ok.mp h
    cases hpart
    exact ⟨rfl, congrArg some hcount, rfl⟩
  | skip hname =>
    obtain rfl : name = "Skip" := hname
    obtain ⟨offset, hoffset, hpart⟩ := Compiled.map_eq_ok.mp h
    cases hpart
    exact ⟨congrArg some hoffset, rfl, rfl⟩
  | single hname _ | singleWhere hname _ _ =>
    have htable : ∀ name ∈ singleNames, name ≠ "Skip" ∧ name ≠ "Take" := by decide
    simp [offset?, count?, isSingle, hname, htable name hname]
  | sort hname _ =>
    have htable : ∀ name ∈ sortNames, name ≠ "Skip" ∧ name ≠ "Take" ∧ name ∉ singleNames := by decide
    simp [offset?, count?, isSingle, htable name hname]
  | filter hname _ _ | select hname _ | near hname _ =>
    change name = _ at hname
    subst hname
    exact ⟨rfl, rfl, rfl⟩

end SearchPart

section Searches

variable {schema : Schema} {settings : Settings} {stages : List Stage} {parts : List SearchPart}

/-- **Of the stages with some names a search keeps the one chained first.** -/
theorem map_firstNamed? {names : List String} {value : Stage → Compiled UInt64}
    {value? : SearchPart → Option UInt64}
    (hstage : ∀ s part, SearchPart.ofStage schema s = .ok part →
      (if s.name ∈ names then some (value s) else none) = (value? part).map .ok)
    (h : List.Forall₂ (fun s part => SearchPart.ofStage schema s = .ok part) stages parts) :
    (firstNamed? names stages).map value = (parts.findSome? value?).map .ok := by
  induction h with
  | nil => rfl
  | @cons s part stages parts hs _ ih =>
    have hfirst := hstage s part hs
    rw [firstNamed?_cons, List.findSome?_cons]
    by_cases hname : s.name ∈ names
    · rw [if_pos hname] at hfirst ⊢
      cases hvalue : value? part with
      | none => simp [hvalue] at hfirst
      | some n => simpa [hvalue] using hfirst
    · rw [if_neg hname] at hfirst ⊢
      cases hvalue : value? part with
      | none => simpa using ih
      | some n => simp [hvalue] at hfirst

theorem any_isSingle
    (h : List.Forall₂ (fun s part => SearchPart.ofStage schema s = .ok part) stages parts) :
    stages.any (·.name ∈ singleNames) = parts.any SearchPart.isSingle := by
  induction h with
  | nil => rfl
  | cons hs _ ih => rw [List.any_cons, List.any_cons, ih, (SearchPart.window_of_ofStage hs).2.2]

namespace SearchDraft

theorem window_ofParts (parts : List SearchPart) :
    (ofParts settings parts).window
      = Window.of? settings (parts.findSome? SearchPart.offset?)
        (parts.findSome? SearchPart.count?) := by
  refine Window.foldr_eq_of? window ?_ rfl parts
  intro part d o c hd
  cases part with
  | take count => exact Window.some_take_of? hd count
  | skip offset => exact Window.some_skip_of? hd offset
  | _ => exact hd

theorem single_ofParts (parts : List SearchPart) :
    (ofParts settings parts).single = parts.any SearchPart.isSingle := by
  induction parts with
  | nil => rfl
  | cons part parts ih =>
    change ((ofParts settings parts).add settings part).single = _
    rw [List.any_cons, ← ih]
    cases part <;> rfl

/-- A single row stands above all counts. -/
theorem window_plan (index : String) (parts : List SearchPart) :
    ((ofParts settings parts).plan settings index).window
      = Window.of? settings (parts.findSome? SearchPart.offset?)
        (if parts.any SearchPart.isSingle then some 1 else parts.findSome? SearchPart.count?) := by
  rw [plan, single_ofParts]
  split
  · exact Window.some_take_of? (window_ofParts parts) 1
  · exact window_ofParts parts

end SearchDraft

/-- **The window of a search.** -/
theorem compileSearch_window {session : Session} {root : Expr} {p : SearchPlan}
    (hroot : root.shape ≠ .call)
    (h : (compileSearch schema settings (root.chainAll stages) session).1 = .ok p) :
    ∃ o c, p.window = Window.of? settings o c ∧
      (firstNamed? ["Skip"] stages).map (·.countArg 0) = o.map .ok ∧
      (if stages.any (·.name ∈ singleNames) then some (.ok 1)
        else (firstNamed? ["Take"] stages).map (·.countArg 0)) = c.map .ok := by
  by_cases hfilter : (root.chainAll stages).shape = .lambda
  · -- a bare filter is no chain of stages, and it has no window
    obtain rfl : stages = [] := by
      by_contra hne
      exact absurd (Expr.shape_chainAll root hne) (by simp [hfilter])
    obtain ⟨index, -, d, hd, rfl⟩ := compileSearch_eq_ok_plan.mp h
    cases root with
    | lambda body =>
      obtain ⟨f, -, hd⟩ := Compiled.bind_eq_ok.mp hd
      cases hd
      exact ⟨none, none, rfl, rfl, rfl⟩
    | _ => cases hfilter
  · obtain ⟨index, parts, -, hparts, rfl⟩ := (compileSearch_eq_ok hfilter).mp h
    rw [Expr.stages_chainAll_of_root hroot, List.reverse_reverse] at hparts
    refine ⟨_, _, SearchDraft.window_plan index parts, ?_, ?_⟩
    · exact map_firstNamed? (fun s part hs => (SearchPart.window_of_ofStage hs).1) hparts
    · rw [any_isSingle hparts]
      split
      · rfl
      · exact map_firstNamed? (fun s part hs => (SearchPart.window_of_ofStage hs).2.1) hparts

end Searches

/-! ## 3. Aggregations -/

theorem lastNamed?_eq_none_iff {names : List String} {stages : List Stage} :
    lastNamed? names stages = none ↔ ∀ s ∈ stages, s.name ∉ names := by
  simp [lastNamed?, List.findRev?_eq_find?_reverse]

namespace AggregatePart

/-- The offset of a part. -/
def offset? : AggregatePart → Option UInt64
  | skip offset => some offset
  | _ => none

/-- The count of a part. -/
def count? : AggregatePart → Option UInt64
  | take count => some count
  | _ => none

theorem window_of_step? {part : AggregatePart} {step : Step} (h : part.step? = some step) :
    part.offset? = none ∧ part.count? = none := by
  cases part <;> first | exact ⟨rfl, rfl⟩ | cases h

/-- What a stage asks of the window, by its name. -/
theorem window_of_ofStage {schema : Schema} {innermost : Bool} {s : Stage}
    {part : Option AggregatePart} (h : ofStage schema innermost s = .ok part) :
    (if s.name ∈ ["Skip"] then some (s.countArg 0) else none) = (part.bind offset?).map .ok ∧
    (if s.name ∈ countNames then some s.rows else none) = (part.bind count?).map .ok := by
  by_cases hwindow : s.name ∈ windowNames
  · obtain ⟨name, args⟩ := s
    simp only [windowNames, List.mem_cons, List.not_mem_nil, or_false] at hwindow
    rcases hwindow with rfl | rfl | rfl | rfl
    · cases h
      exact ⟨rfl, rfl⟩
    · cases h
      exact ⟨rfl, rfl⟩
    · obtain ⟨count, hcount, rfl⟩ := Compiled.map_eq_ok.mp h
      exact ⟨rfl, congrArg some hcount⟩
    · obtain ⟨offset, hoffset, rfl⟩ := Compiled.map_eq_ok.mp h
      exact ⟨congrArg some hoffset, rfl⟩
  · -- no other stage has a part in the window
    have hpart : part.bind offset? = none ∧ part.bind count? = none := by
      cases requests_of_ofStage h with
      | narrow _ _ _ | group _ _ | passedOver _ => exact ⟨rfl, rfl⟩
      | step _ _ hstep => exact window_of_step? hstep
      | window hname _ => exact absurd hname hwindow
    have hnames : s.name ∉ ["Skip"] ∧ s.name ∉ countNames := by
      grind [windowNames, countNames]
    rw [if_neg hnames.1, if_neg hnames.2, hpart.1, hpart.2]
    exact ⟨rfl, rfl⟩

end AggregatePart

section Aggregations

variable {schema : Schema} {settings : Settings} {stages : List Stage}

theorem AggregateDraft.window_foldl_add (parts : List AggregatePart) :
    (parts.foldl (add settings) {}).window
      = Window.of? settings (parts.reverse.findSome? AggregatePart.offset?)
        (parts.reverse.findSome? AggregatePart.count?) := by
  rw [← List.foldr_reverse]
  refine Window.foldr_eq_of? window ?_ rfl parts.reverse
  intro part d o c hd
  cases part with
  | take count => exact Window.some_take_of? hd count
  | skip offset => exact Window.some_skip_of? hd offset
  | _ => exact hd

/-- **Of the stages with some names an aggregation keeps the one chained last.** -/
theorem map_lastNamed? {names : List String} {value : Stage → Compiled UInt64}
    {value? : AggregatePart → Option UInt64} {innermost : Bool} {parts : List AggregatePart}
    (hstage : ∀ innermost s part, AggregatePart.ofStage schema innermost s = .ok part →
      (if s.name ∈ names then some (value s) else none) = (part.bind value?).map .ok)
    (h : AggregatePart.ofStages schema innermost stages = .ok parts) :
    (lastNamed? names stages).map value = (parts.reverse.findSome? value?).map .ok := by
  induction stages generalizing innermost parts with
  | nil =>
    cases h
    rfl
  | cons s stages ih =>
    obtain ⟨part, rest, hpart, hrest, rfl⟩ := AggregatePart.ofStages_cons_eq_ok.mp h
    have hlast : part.toList.reverse.findSome? value? = part.bind value? := by
      cases part with
      | none => rfl
      | some part => simp
    have hfirst : (if s.name ∈ names then some s else none).map value
        = (part.bind value?).map .ok := by
      rw [← hstage innermost s part hpart]
      split <;> rfl
    rw [lastNamed?_cons, List.reverse_append, List.findSome?_append, hlast, Option.map_or,
      Option.map_or, ih hrest, hfirst]

/-- **The window of an aggregation.** -/
theorem compileAggregate_window {session : Session} {root : Expr} {p : AggregatePlan}
    (hroot : root.shape ≠ .call)
    (h : (compileAggregate schema settings (root.chainAll stages) session).1 = .ok p) :
    ∃ o c, p.window = Window.of? settings o c ∧
      (lastNamed? ["Skip"] stages).map (·.countArg 0) = o.map .ok ∧
      (lastNamed? countNames stages).map Stage.rows = c.map .ok := by
  obtain ⟨index, -, parts, hparts, rfl⟩ := compileAggregate_eq_ok.mp h
  rw [Expr.stages_chainAll_of_root hroot, List.reverse_reverse] at hparts
  refine ⟨_, _, AggregateDraft.window_foldl_add parts, ?_, ?_⟩
  · exact map_lastNamed? (fun _ _ _ hs => (AggregatePart.window_of_ofStage hs).1) hparts
  · exact map_lastNamed? (fun _ _ _ hs => (AggregatePart.window_of_ofStage hs).2) hparts

end Aggregations

/-! ## 4. Both -/

theorem none_iff_of_map_eq {s : Option Stage} {value : Stage → Compiled UInt64} {o : Option UInt64}
    (h : s.map value = o.map .ok) : o = none ↔ s = none := by
  rw [← Option.map_eq_none_iff, ← h, Option.map_eq_none_iff]

/-- A search sets no count exactly if it has neither a single row nor a `Take`. -/
theorem searchCount_eq_none_iff {stages : List Stage} {c : Option UInt64}
    (h : (if stages.any (·.name ∈ singleNames) then some (.ok 1)
      else (firstNamed? ["Take"] stages).map (·.countArg 0)) = c.map .ok) :
    c = none ↔ (∀ s ∈ stages, s.name ∉ singleNames) ∧ firstNamed? ["Take"] stages = none := by
  have hsingle : stages.any (·.name ∈ singleNames) = false ↔
      ∀ s ∈ stages, s.name ∉ singleNames := by simp
  rw [← Option.map_eq_none_iff, ← h, ← hsingle]
  cases stages.any (·.name ∈ singleNames) <;> simp

/-- Where one stage at most has one of the names, the first and the last are the same. -/
theorem firstNamed?_eq_lastNamed? {names : List String} {stages : List Stage}
    (h : stages.countP (·.name ∈ names) ≤ 1) : firstNamed? names stages = lastNamed? names stages := by
  induction stages with
  | nil => rfl
  | cons s stages ih =>
    rw [List.countP_cons] at h
    rw [firstNamed?_cons, lastNamed?_cons]
    by_cases hname : s.name ∈ names
    · have hrest : stages.countP (·.name ∈ names) = 0 := by
        simp only [hname, decide_true, if_true] at h
        omega
      have hnone : lastNamed? names stages = none := by
        rw [lastNamed?_eq_none_iff]
        simpa using List.countP_eq_zero.mp hrest
      rw [hnone, if_pos hname]
      rfl
    · rw [if_neg hname, Option.or_none, Option.none_or]
      exact ih (by omega)

/-- Without single rows a count is the argument of a `Take`. -/
theorem map_rows_lastNamed? {stages : List Stage} (h : ∀ s ∈ stages, s.name ∉ singleNames) :
    (lastNamed? countNames stages).map Stage.rows
      = (lastNamed? ["Take"] stages).map (·.countArg 0) := by
  induction stages with
  | nil => rfl
  | cons s stages ih =>
    rw [lastNamed?_cons, lastNamed?_cons, Option.map_or, Option.map_or,
      ih fun t ht => h t (List.mem_cons_of_mem s ht)]
    have hsingle := h s List.mem_cons_self
    by_cases hname : s.name = "Take"
    · simp [countNames, Stage.rows, hname]
    · have hcount : s.name ∉ countNames := by grind [countNames, singleNames]
      simp [hcount, hname]

/-- **Which window a chain compiles to.**  A search has one exactly if the chain has a count, an offset
or a single row; its offset is that of the `Skip` chained first, and its count is one row if the chain
asks for a single row anywhere and that of the `Take` chained first otherwise.  An aggregation has one
exactly if the chain has a count or an offset; its offset is that of the `Skip` chained last, and its
count that of the count chained last, a single row being one.  What the chain does not say has its
default.  So the two agree on a chain with one offset, one count at most and no single row. -/
theorem compile_window (schema : Schema) (settings : Settings) (session session' : Session)
    (root : Expr) (stages : List Stage) (hroot : root.shape ≠ .call) :
    (∀ p, (compileSearch schema settings (root.chainAll stages) session).1 = .ok p →
      (p.window = none ↔ ∀ s ∈ stages, s.name ∉ "Take" :: "Skip" :: singleNames) ∧
      ∀ w, p.window = some w → w.Follows settings
        ((firstNamed? ["Skip"] stages).map (·.countArg 0))
        (if stages.any (·.name ∈ singleNames) then some (.ok 1)
          else (firstNamed? ["Take"] stages).map (·.countArg 0))) ∧
    (∀ p, (compileAggregate schema settings (root.chainAll stages) session').1 = .ok p →
      (p.window = none ↔ ∀ s ∈ stages, s.name ∉ "Skip" :: countNames) ∧
      ∀ w, p.window = some w → w.Follows settings
        ((lastNamed? ["Skip"] stages).map (·.countArg 0))
        ((lastNamed? countNames stages).map Stage.rows)) ∧
    ∀ p p', (compileSearch schema settings (root.chainAll stages) session).1 = .ok p →
      (compileAggregate schema settings (root.chainAll stages) session').1 = .ok p' →
      stages.countP (·.name = "Skip") ≤ 1 → stages.countP (·.name = "Take") ≤ 1 →
      (∀ s ∈ stages, s.name ∉ singleNames) → p.window = p'.window := by
  refine ⟨fun p hp => ?_, fun p hp => ?_, fun p p' hp hp' hskip htake hsingle => ?_⟩
  · obtain ⟨o, c, hwindow, ho, hc⟩ := compileSearch_window hroot hp
    constructor
    · rw [hwindow, Window.of?_eq_none_iff, none_iff_of_map_eq ho, searchCount_eq_none_iff hc,
        firstNamed?_eq_none_iff, firstNamed?_eq_none_iff]
      simp only [List.mem_cons, List.not_mem_nil, or_false, not_or]
      grind
    · intro w hw
      rw [ho, hc]
      exact Window.follows_of? (hwindow ▸ hw)
  · obtain ⟨o, c, hwindow, ho, hc⟩ := compileAggregate_window hroot hp
    constructor
    · rw [hwindow, Window.of?_eq_none_iff, none_iff_of_map_eq ho, none_iff_of_map_eq hc,
        lastNamed?_eq_none_iff, lastNamed?_eq_none_iff]
      simp only [List.mem_cons, List.not_mem_nil, or_false, not_or]
      grind
    · intro w hw
      rw [ho, hc]
      exact Window.follows_of? (hwindow ▸ hw)
  · obtain ⟨o, c, hwindow, ho, hc⟩ := compileSearch_window hroot hp
    obtain ⟨o', c', hwindow', ho', hc'⟩ := compileAggregate_window hroot hp'
    have hinjective : Function.Injective (Option.map (Except.ok : UInt64 → Compiled UInt64)) :=
      Option.map_injective fun _ _ => Except.ok.inj
    have hoffset : o = o' := by
      apply hinjective
      rw [← ho, ← ho', firstNamed?_eq_lastNamed? (by simpa using hskip)]
    have hcount : c = c' := by
      apply hinjective
      rw [← hc, ← hc', map_rows_lastNamed? hsingle, if_neg (by simpa using hsingle),
        firstNamed?_eq_lastNamed? (by simpa using htake)]
    rw [hwindow, hwindow', hoffset, hcount]

/-- A window stage with a number. -/
def windowStage (name : String) (n : UInt64) : Stage := ⟨name, [.constant (.num (.whole n))]⟩

/-- Two offsets and two counts, with a single row between them. -/
def windowChain : List Stage :=
  [windowStage "Skip" 5, windowStage "Take" 10, ⟨"First", []⟩, windowStage "Take" 20,
   windowStage "Skip" 7]

/-- The search takes the first offset and the single row, the aggregation the last offset and the last
count; on one offset and one count they agree. -/
theorem compile_window_windowChain :
    (compileSearch citySchema {} ((Expr.constant (.str "people")).chainAll windowChain) {}).1
      = .ok ⟨"people", "*", none, none, some ⟨5, 1⟩, none⟩ ∧
    Window.Follows {} ((firstNamed? ["Skip"] windowChain).map (·.countArg 0)) (some (.ok 1)) ⟨5, 1⟩ ∧
    (compileAggregate citySchema {} ((Expr.constant (.str "people")).chainAll windowChain) {}).1
      = .ok ⟨"people", none, some ⟨7, 20⟩, []⟩ ∧
    Window.Follows {} ((lastNamed? ["Skip"] windowChain).map (·.countArg 0))
      ((lastNamed? countNames windowChain).map Stage.rows) ⟨7, 20⟩ ∧
    ∃ p p', (compileSearch citySchema {} ((Expr.constant (.str "people")).chainAll
        [windowStage "Take" 10, windowStage "Skip" 5]) {}).1 = .ok p ∧
      (compileAggregate citySchema {} ((Expr.constant (.str "people")).chainAll
        [windowStage "Take" 10, windowStage "Skip" 5]) {}).1 = .ok p' ∧
      p.window = some ⟨5, 10⟩ ∧ p.window = p'.window := by
  have hroot : (Expr.constant (.str "people")).shape ≠ .call := by decide
  obtain ⟨hsearch, haggregate, -⟩ := compile_window citySchema {} {} {} _ windowChain hroot
  obtain ⟨-, -, hagree⟩ := compile_window citySchema {} {} {} _
    [windowStage "Take" 10, windowStage "Skip" 5] hroot
  refine ⟨rfl, (hsearch _ rfl).2 _ rfl, rfl, (haggregate _ rfl).2 _ rfl, _, _, rfl, rfl, rfl, ?_⟩
  exact hagree _ _ rfl rfl (by decide) (by decide) (by simp [windowStage, singleNames])

end IndexQuery
