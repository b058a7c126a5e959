/-
# What a stage reduces to

Thirteen stages reduce the rows of a group to one value.  `Stage.Reduces` says of each which reduction it
is, rule by rule: the function, what it works on, and the label under which the value comes out.

* `Count` and `LongCount` look at nothing and are labelled by the function alone.
* Eight stages want one field (`fieldReductions`) and are labelled by the field and the function.
* `Quantile` and `RandomSample` want a number besides, which has to be in range.
* `FirstValue` may name the key of an order, and behind that the direction.

The rules are exact (`Stage.reduces_iff_ofStage`): what a stage with one of these names compiles to is the
reduction of its rule, and it compiles only if a rule applies.  Each helper of the compiler has one lemma
for this; `Quantile` and `RandomSample` share theirs (`Reduction.checked_eq_ok`), since all that tells them
apart is the function and the range.
-/
import IndexQuery.Compile.Aggregate
import IndexQuery.Proofs.Filter.Tests

namespace IndexQuery

/-! ## 1. The rules -/

/-- The names of the stages that reduce the rows of a group. -/
def reductionNames : List String :=
  ["Count", "LongCount", "Quantile", "RandomSample", "FirstValue", "Average", "StandardDeviation",
   "Sum", "Min", "Max", "CountDistinct", "CountDistinctish", "Distinct"]

/-- The stages that reduce a field and want nothing more, with the function and its name. -/
def fieldReductions : List (String × ReduceFunction × String) :=
  [("Average", .avg, "AVG"), ("StandardDeviation", .stddev, "STDDEV"), ("Sum", .sum, "SUM"),
   ("Min", .min, "MIN"), ("Max", .max, "MAX"), ("CountDistinct", .countDistinct, "COUNT_DISTINCT"),
   ("CountDistinctish", .countDistinctish, "COUNT_DISTINCTISH"), ("Distinct", .toList, "TOLIST")]

namespace Stage

/-- The field that a stage reduces is its first argument. -/
def Targets (s : Stage) (field : String) : Prop :=
  ∃ e, s.arg 0 = .ok e ∧ e.resolveField = .ok field

/-- The number that a stage wants besides is its second argument. -/
def HasParameter (s : Stage) (n : Number) : Prop :=
  ∃ e, s.arg 1 = .ok e ∧ e.HasValue (.num n)

/-- **The direction of an order**, by the third argument: ascending if there is none, a truth value that
says whether it is descending, or a word in any case of letters. -/
inductive Directs (s : Stage) : Direction → Prop
  | unsaid : s.args[2]? = none → Directs s .asc
  | ascending {e : Expr} : s.args[2]? = some e → e.HasValue (.bool false) → Directs s .asc
  | descending {e : Expr} : s.args[2]? = some e → e.HasValue (.bool true) → Directs s .desc
  | asc {e : Expr} {word : String} : s.args[2]? = some e → e.HasValue (.str word) →
      lowerText word = "asc" → Directs s .asc
  | desc {e : Expr} {word : String} : s.args[2]? = some e → e.HasValue (.str word) →
      lowerText word = "desc" → Directs s .desc

/-- **The reduction that a stage is**, by its name. -/
inductive Reduces (s : Stage) : Reduction → Prop
  | count : s.name ∈ ["Count", "LongCount"] → Reduces s ⟨.count, .none, "COUNT"⟩
  | field {function : ReduceFunction} {title field : String} :
      (s.name, function, title) ∈ fieldReductions → s.Targets field →
      Reduces s ⟨function, .field field, field ++ "_" ++ title⟩
  | quantile {field : String} {q : Number} : s.name = "Quantile" → s.Targets field →
      s.HasParameter q → q.toBinary64.isUnitInterval = true →
      Reduces s ⟨.quantile, .parameter field q, field ++ "_" ++ "QUANTILE"⟩
  | randomSample {field : String} {size : UInt64} : s.name = "RandomSample" → s.Targets field →
      s.HasParameter (.whole size) → 0 < size →
      Reduces s ⟨.randomSample, .parameter field (.whole size), field ++ "_" ++ "RANDOM_SAMPLE"⟩
  | firstValue {field : String} : s.name = "FirstValue" → s.Targets field → s.args[1]? = none →
      Reduces s ⟨.firstValue, .first field none, field ++ "_" ++ "FIRST_VALUE"⟩
  | firstValueBy {field key : String} {e : Expr} {direction : Direction} : s.name = "FirstValue" →
      s.Targets field → s.args[1]? = some e → e.resolveField = .ok key → s.Directs direction →
      Reduces s ⟨.firstValue, .first field (some ⟨key, direction⟩), field ++ "_" ++ "FIRST_VALUE"⟩

theorem Reduces.name_mem {s : Stage} {r : Reduction} (h : s.Reduces r) : s.name ∈ reductionNames := by
  cases h with
  | count hname =>
    simp only [List.mem_cons, List.not_mem_nil, or_false] at hname
    rcases hname with hname | hname <;> simp [hname, reductionNames]
  | field hmem _ =>
    have htable : ∀ entry ∈ fieldReductions, entry.1 ∈ reductionNames := by decide
    exact htable _ hmem
  | quantile hname _ _ _ => simp [hname, reductionNames]
  | randomSample hname _ _ _ => simp [hname, reductionNames]
  | firstValue hname _ _ => simp [hname, reductionNames]
  | firstValueBy hname _ _ _ _ => simp [hname, reductionNames]

end Stage

/-! ## 2. Arguments

One lemma for each helper that reads an argument: it succeeds exactly as the rules say. -/

namespace Reduction

variable {s : Stage}

/-- What goes on with the field that is reduced. -/
theorem bind_target_eq_ok {β : Type} {f : String → Compiled β} {b : β} :
    (do
      let field ← (← s.arg 0).resolveField
      f field) = .ok b ↔ ∃ field, s.Targets field ∧ f field = .ok b := by
  simp only [Compiled.bind_eq_ok]
  constructor
  · rintro ⟨e, he, field, hfield, h⟩
    exact ⟨field, ⟨e, he, hfield⟩, h⟩
  · rintro ⟨field, ⟨e, he, hfield⟩, h⟩
    exact ⟨e, he, field, hfield, h⟩

theorem numberArg_eq_ok {n : Number} : numberArg s 1 = .ok n ↔ s.HasParameter n := by
  simp only [numberArg, Compiled.bind_eq_ok, Expr.constantOperand_eq_ok]
  constructor
  · rintro ⟨e, he, value, hvalue, h⟩
    split at h
    · cases h
      exact ⟨e, he, hvalue⟩
    · cases h
  · rintro ⟨e, he, hvalue⟩
    exact ⟨e, he, _, hvalue, rfl⟩

/-- The directions that a constant names. -/
theorem direction?_eq_some_iff {value : Json} {direction : Direction} :
    direction? value = some direction ↔
      (value = .bool false ∧ direction = .asc) ∨ (value = .bool true ∧ direction = .desc) ∨
      ∃ word, value = .str word ∧
        ((lowerText word = "asc" ∧ direction = .asc) ∨ (lowerText word = "desc" ∧ direction = .desc)) := by
  constructor
  · intro h
    unfold direction? at h
    split at h
    · cases h
      exact .inr (.inl ⟨rfl, rfl⟩)
    · cases h
      exact .inl ⟨rfl, rfl⟩
    · next word =>
      split at h
      · next hword =>
        cases h
        exact .inr (.inr ⟨word, rfl, .inr ⟨hword, rfl⟩⟩)
      · next hword =>
        cases h
        exact .inr (.inr ⟨word, rfl, .inl ⟨hword, rfl⟩⟩)
      · cases h
    · cases h
  · rintro (⟨rfl, rfl⟩ | ⟨rfl, rfl⟩ | ⟨word, rfl, ⟨hword, rfl⟩ | ⟨hword, rfl⟩⟩)
    · rfl
    · rfl
    · simp [direction?, hword]
    · simp [direction?, hword]

theorem directionArg_eq_ok {direction : Direction} :
    directionArg s 2 = .ok direction ↔ s.Directs direction := by
  constructor
  · intro h
    unfold directionArg at h
    split at h
    · next hnone =>
      cases h
      exact .unsaid hnone
    · next e he =>
      obtain ⟨value, hvalue, h⟩ := Compiled.bind_eq_ok.mp h
      rw [Expr.constantOperand_eq_ok] at hvalue
      split at h
      · next direction' hdirection =>
        cases h
        rcases direction?_eq_some_iff.mp hdirection with ⟨rfl, rfl⟩ | ⟨rfl, rfl⟩ |
          ⟨word, rfl, ⟨hword, rfl⟩ | ⟨hword, rfl⟩⟩
        · exact .ascending he hvalue
        · exact .descending he hvalue
        · exact .asc he hvalue hword
        · exact .desc he hvalue hword
      · cases h
  · have hnamed : ∀ {e : Expr} {value : Json}, s.args[2]? = some e → e.HasValue value →
        direction? value = some direction → directionArg s 2 = .ok direction := by
      intro e value he hvalue hdirection
      simp only [directionArg, he, Expr.constantOperand_eq_ok.mpr hvalue, bind, Except.bind, hdirection]
    intro h
    cases h with
    | unsaid hnone => simp only [directionArg, hnone]
    | ascending he hvalue => exact hnamed he hvalue rfl
    | descending he hvalue => exact hnamed he hvalue rfl
    | asc he hvalue hword => exact hnamed he hvalue (by simp [direction?, hword])
    | desc he hvalue hword => exact hnamed he hvalue (by simp [direction?, hword])

/-! ## 3. Reductions with more than a field

The errors come in an order of their own, the field before the number and both before the range.  An
accepted stage does not show it, and the lemmas leave it out. -/

/-- **A field with a number in range.** -/
theorem checked_eq_ok {function : ReduceFunction} {check : Number → Bool} {e : CompileError}
    {r : Reduction} :
    (do
      let field ← (← s.arg 0).resolveField
      let n ← numberArg s 1
      if check n then return named function (.parameter field n) else .error e) = .ok r ↔
      ∃ field n, s.Targets field ∧ s.HasParameter n ∧ check n = true ∧
        r = ⟨function, .parameter field n, field ++ "_" ++ function.name⟩ := by
  rw [bind_target_eq_ok]
  simp only [Compiled.bind_eq_ok, numberArg_eq_ok]
  constructor
  · rintro ⟨field, hfield, n, hn, h⟩
    split at h
    · next hcheck =>
      cases h
      exact ⟨field, n, hfield, hn, hcheck, rfl⟩
    · cases h
  · rintro ⟨field, n, hfield, hn, hcheck, rfl⟩
    exact ⟨field, hfield, n, hn, if_pos hcheck⟩

/-- A size is a whole number above zero. -/
theorem exists_size_iff {n : Number} :
    n.toUInt64?.any (0 < ·) = true ↔ ∃ size, n = .whole size ∧ 0 < size := by
  cases n with
  | whole size => simp [Number.toUInt64?]
  | negSucc k => simp [Number.toUInt64?]
  | float x => simp [Number.toUInt64?]

/-- **The first value of a field**, in the order of a key if there is one. -/
theorem firstValue_eq_ok {r : Reduction} :
    firstValue s = .ok r ↔
      ∃ field, s.Targets field ∧
        ((s.args[1]? = none ∧ r = ⟨.firstValue, .first field none, field ++ "_" ++ "FIRST_VALUE"⟩) ∨
        ∃ e key direction, s.args[1]? = some e ∧ e.resolveField = .ok key ∧ s.Directs direction ∧
          r = ⟨.firstValue, .first field (some ⟨key, direction⟩), field ++ "_" ++ "FIRST_VALUE"⟩) := by
  rw [firstValue, bind_target_eq_ok]
  constructor
  · rintro ⟨field, hfield, h⟩
    refine ⟨field, hfield, ?_⟩
    split at h
    · next hnone =>
      cases h
      exact .inl ⟨hnone, rfl⟩
    · next e he =>
      obtain ⟨direction, hdirection, h⟩ := Compiled.bind_eq_ok.mp h
      obtain ⟨key, hkey, h⟩ := Compiled.bind_eq_ok.mp h
      cases h
      exact .inr ⟨e, key, direction, he, hkey, directionArg_eq_ok.mp hdirection, rfl⟩
  · rintro ⟨field, hfield, ⟨hnone, rfl⟩ | ⟨e, key, direction, he, hkey, hdirection, rfl⟩⟩
    · refine ⟨field, hfield, ?_⟩
      simp only [hnone]
      rfl
    · refine ⟨field, hfield, ?_⟩
      simp only [he, directionArg_eq_ok.mpr hdirection, hkey, bind, Except.bind]
      rfl

end Reduction

/-! ## 4. The compiler keeps to the rules

Both directions go by the name of the stage, which picks one branch of the compiler and one rule. -/

/-- The table of the compiler is the table of the rules. -/
theorem Reduction.fieldOnly?_eq_some_iff {name : String} {function : ReduceFunction} :
    fieldOnly? name = some function ↔ (name, function, function.name) ∈ fieldReductions := by
  constructor
  · intro h
    unfold fieldOnly? at h
    split at h <;> cases h <;> decide
  · intro h
    simp only [fieldReductions, List.mem_cons, Prod.mk.injEq, List.not_mem_nil, or_false] at h
    rcases h with ⟨rfl, rfl, -⟩ | ⟨rfl, rfl, -⟩ | ⟨rfl, rfl, -⟩ | ⟨rfl, rfl, -⟩ | ⟨rfl, rfl, -⟩ |
      ⟨rfl, rfl, -⟩ | ⟨rfl, rfl, -⟩ | ⟨rfl, rfl, -⟩
    all_goals rfl

theorem name_of_mem_fieldReductions {name title : String} {function : ReduceFunction}
    (h : (name, function, title) ∈ fieldReductions) : title = function.name := by
  have htable : ∀ entry ∈ fieldReductions, entry.2.2 = entry.2.1.name := by decide
  exact htable _ h

/-- The reductions of a field alone are all compiled the same way. -/
theorem AggregatePart.ofStage_fieldOnly {schema : Schema} {innermost : Bool} {stage : Stage}
    {function : ReduceFunction} (h : Reduction.fieldOnly? stage.name = some function) :
    ofStage schema innermost stage = (do
      let field ← (← stage.arg 0).resolveField
      return some (reduce (.named function (.field field)))) := by
  obtain ⟨name, args⟩ := stage
  simp only [Reduction.fieldOnly?] at h
  split at h <;> cases h <;> rfl

namespace Stage

variable {schema : Schema} {s : Stage}

/-- What a rule says, compiles. -/
theorem Reduces.ofStage {r : Reduction} (h : s.Reduces r) (schema : Schema) :
    AggregatePart.ofStage schema false s = .ok (some (.reduce r)) := by
  cases h with
  | count hname =>
    obtain ⟨name, args⟩ := s
    simp only [List.mem_cons, List.not_mem_nil, or_false] at hname
    rcases hname with rfl | rfl
    · rfl
    · rfl
  | @field function title field hmem hfield =>
    obtain rfl := name_of_mem_fieldReductions hmem
    rw [AggregatePart.ofStage_fieldOnly (Reduction.fieldOnly?_eq_some_iff.mpr hmem),
      Reduction.bind_target_eq_ok]
    exact ⟨field, hfield, rfl⟩
  | @quantile field q hname hfield hq hunit =>
    obtain ⟨name, args⟩ := s
    obtain rfl := hname
    exact Compiled.map_eq_ok.mpr
      ⟨_, Reduction.checked_eq_ok.mpr ⟨field, q, hfield, hq, hunit, rfl⟩, rfl⟩
  | @randomSample field size hname hfield hsize hpos =>
    obtain ⟨name, args⟩ := s
    obtain rfl := hname
    have hchecked : (Number.whole size).toUInt64?.any (0 < ·) = true :=
      Reduction.exists_size_iff.mpr ⟨size, rfl, hpos⟩
    exact Compiled.map_eq_ok.mpr
      ⟨_, Reduction.checked_eq_ok.mpr ⟨field, _, hfield, hsize, hchecked, rfl⟩, rfl⟩
  | @firstValue field hname hfield hnone =>
    obtain ⟨name, args⟩ := s
    obtain rfl := hname
    exact Compiled.map_eq_ok.mpr
      ⟨_, Reduction.firstValue_eq_ok.mpr ⟨field, hfield, .inl ⟨hnone, rfl⟩⟩, rfl⟩
  | @firstValueBy field key e direction hname hfield he hkey hdirection =>
    obtain ⟨name, args⟩ := s
    obtain rfl := hname
    exact Compiled.map_eq_ok.mpr ⟨_, Reduction.firstValue_eq_ok.mpr
      ⟨field, hfield, .inr ⟨e, key, direction, he, hkey, hdirection, rfl⟩⟩, rfl⟩

/-- **A stage with one of the names compiles only by a rule.** -/
theorem exists_reduces {part : Option AggregatePart} (hname : s.name ∈ reductionNames)
    (hpart : AggregatePart.ofStage schema false s = .ok part) :
    ∃ r, s.Reduces r ∧ part = some (.reduce r) := by
  cases htable : Reduction.fieldOnly? s.name with
  | some function =>
    rw [AggregatePart.ofStage_fieldOnly htable, Reduction.bind_target_eq_ok] at hpart
    obtain ⟨field, hfield, hpart⟩ := hpart
    cases hpart
    exact ⟨_, .field (Reduction.fieldOnly?_eq_some_iff.mp htable) hfield, rfl⟩
  | none =>
    obtain ⟨name, args⟩ := s
    simp only [reductionNames, List.mem_cons, List.not_mem_nil, or_false] at hname
    rcases hname with rfl | rfl | rfl | rfl | rfl | rfl | rfl | rfl | rfl | rfl | rfl | rfl | rfl
    · cases hpart
      exact ⟨_, .count (by simp), rfl⟩
    · cases hpart
      exact ⟨_, .count (by simp), rfl⟩
    · obtain ⟨r, hr, rfl⟩ := Compiled.map_eq_ok.mp hpart
      obtain ⟨field, q, hfield, hq, hunit, rfl⟩ := Reduction.checked_eq_ok.mp hr
      exact ⟨_, .quantile rfl hfield hq hunit, rfl⟩
    · obtain ⟨r, hr, rfl⟩ := Compiled.map_eq_ok.mp hpart
      obtain ⟨field, n, hfield, hn, hchecked, rfl⟩ := Reduction.checked_eq_ok.mp hr
      obtain ⟨size, rfl, hpos⟩ := Reduction.exists_size_iff.mp hchecked
      exact ⟨_, .randomSample rfl hfield hn hpos, rfl⟩
    · obtain ⟨r, hr, rfl⟩ := Compiled.map_eq_ok.mp hpart
      obtain ⟨field, hfield, ⟨hnone, rfl⟩ | ⟨e, key, direction, he, hkey, hdirection, rfl⟩⟩ :=
        Reduction.firstValue_eq_ok.mp hr
      · exact ⟨_, .firstValue rfl hfield hnone, rfl⟩
      · exact ⟨_, .firstValueBy rfl hfield he hkey hdirection, rfl⟩
    -- the other names are in the table of the compiler
    all_goals cases htable

/-- **The rules are exact.** -/
theorem reduces_iff_ofStage {r : Reduction} :
    s.Reduces r ↔ s.name ∈ reductionNames ∧
      AggregatePart.ofStage schema false s = .ok (some (.reduce r)) := by
  constructor
  · intro h
    exact ⟨h.name_mem, h.ofStage schema⟩
  · rintro ⟨hname, hpart⟩
    obtain ⟨r', hr, heq⟩ := exists_reduces hname hpart
    cases heq
    exact hr

/-- A stage reduces a field alone exactly if its name is in the table of these. -/
theorem Reduces.isFieldOnly {r : Reduction} (h : s.Reduces r) :
    r.isFieldOnly = (Reduction.fieldOnly? s.name).isSome := by
  cases h with
  | count hname =>
    simp only [List.mem_cons, List.not_mem_nil, or_false] at hname
    rcases hname with hname | hname
    · rw [hname]
      rfl
    · rw [hname]
      rfl
  | field hmem _ =>
    obtain rfl := name_of_mem_fieldReductions hmem
    rw [Reduction.fieldOnly?_eq_some_iff.mpr hmem]
    rfl
  | quantile hname _ _ _ | randomSample hname _ _ _ | firstValue hname _ _
  | firstValueBy hname _ _ _ _ =>
    rw [hname]
    rfl

end Stage

end IndexQuery
