/-
# The predicates that compile

`IsPredicate s e` is the grammar of predicates under a schema, rule by rule and without reference to
the compiler: which shapes of expression are predicates, which kinds a field must have in each, and
which names there are for the unit of a radius (`geoUnitNames`).
The main result is that the compiler accepts exactly these (`filterText_accepts_iff`).  Nothing
outside the grammar slips through, and nothing of it is refused.

The compiler decides this in several places: a guard on whether an operand is a comparison itself,
three ways to look for an operand, and a table of kinds per call.  The guard decides nothing on its
own (`Filter.build_comparison_eq_ok`): an operand that is a comparison itself is no field reference
and no constant either.
-/
import IndexQuery.Proofs.Filter.Tests

namespace IndexQuery

/-! ## 1. The grammar -/

/-- The kinds of fields that can be tested for a value. -/
def equalityKinds : List FieldKind := [.tag, .text, .numeric]

/-- The kinds of fields that can be searched for a part of a value. -/
def textualKinds : List FieldKind := [.tag, .text]

/-- **The grammar of predicates.** -/
inductive IsPredicate (s : Schema) : Expr → Prop
  | lambda {e : Expr} : IsPredicate s e → IsPredicate s (.lambda e)
  | convert {e : Expr} : IsPredicate s e → IsPredicate s (.unary .convert e)
  | not {e : Expr} : IsPredicate s e → IsPredicate s (.unary .not e)
  | both {l r : Expr} : IsPredicate s l → IsPredicate s r → IsPredicate s (.binary .and l r)
  | either {l r : Expr} : IsPredicate s l → IsPredicate s r → IsPredicate s (.binary .or l r)
  | range {op : BinaryOp} {l r : Expr} {field : String} {v : Json} :
      op ∈ [.gt, .lt, .ge, .le] → l.RefersTo field → r.HasValue v → s.Searches field .numeric →
      IsPredicate s (.binary op l r)
  | equality {op : BinaryOp} {l r : Expr} {field : String} {v : Json} {kind : FieldKind} :
      op ∈ [.eq, .ne] → l.RefersTo field → r.HasValue v → s.Searches field kind →
      kind ∈ equalityKinds → IsPredicate s (.binary op l r)
  | member {field : String} {kind : FieldKind} :
      s.Searches field kind → kind ∈ equalityKinds → IsPredicate s (.member field)
  | equals {target value : Expr} {field : String} {v : Json} {kind : FieldKind} :
      target.RefersTo field → value.HasValue v → s.Searches field kind → kind ∈ equalityKinds →
      IsPredicate s (.call "Equals" [target, value])
  | membership {list item : Expr} {field : String} {vs : List Json} {kind : FieldKind} :
      list.HasValue (.arr vs) → vs ≠ [] → item.RefersTo field → s.Searches field kind →
      kind ∈ equalityKinds → IsPredicate s (.call "Contains" [list, item])
  | containment {target value : Expr} {field : String} {v : Json} {kind : FieldKind} :
      (∀ vs, ¬ target.HasValue (.arr vs)) → target.RefersTo field → value.HasValue v →
      s.Searches field kind → kind ∈ textualKinds →
      IsPredicate s (.call "Contains" [target, value])
  | affix {name : String} {target value : Expr} {field : String} {v : Json} {kind : FieldKind} :
      name ∈ ["StartsWith", "EndsWith"] → target.RefersTo field → value.HasValue v →
      s.Searches field kind → kind ∈ textualKinds → IsPredicate s (.call name [target, value])
  | geo {target longitude latitude radius unit : Expr} {field : String} {x y r : Number}
      {name : Json} {u : GeoUnit} :
      target.RefersBelow field → s.Searches field .geo → longitude.HasValue (.num x) →
      latitude.HasValue (.num y) → radius.HasValue (.num r) → unit.HasValue name →
      (lowerText name.plain, u) ∈ geoUnitNames →
      IsPredicate s (.call "GeoFilter" [target, longitude, latitude, radius, unit])

/-! ## 2. The table of kinds -/

/-- The kinds that a test allows. -/
def Test.Admits : Test → FieldKind → Prop
  | equals _, kind => kind ∈ equalityKinds
  | compares op _, kind => op ∈ [.gt, .lt, .ge, .le] ∧ kind = .numeric
  | contains _, kind | startsWith _, kind | endsWith _, kind => kind ∈ textualKinds
  | oneOf vs, kind => vs ≠ [] ∧ kind ∈ equalityKinds
  | within .., kind => kind = .geo

theorem Test.exists_filter?_iff {field : String} {test : Test} {kind : FieldKind} :
    (∃ f, test.filter? field kind = some f) ↔ test.Admits kind := by
  cases test with
  | compares op v => cases op <;> cases kind <;> simp [Test.filter?, Test.Admits]
  | oneOf vs =>
    cases vs with
    | nil => cases kind <;> simp [Test.filter?, Test.Admits]
    | cons v vs =>
      cases kind <;> cases vs <;> simp [Test.filter?, Test.Admits, equalityKinds]
  | _ => cases kind <;> simp [Test.filter?, Test.Admits, equalityKinds, textualKinds]

/-! ## 3. Leaves -/

theorem comparison_ok_iff {s : Schema} {op : BinaryOp} {l r : Expr} :
    (∃ f, Filter.comparison s op l r = .ok f) ↔
      ∃ field v kind negative test, l.RefersTo field ∧ r.HasValue v ∧ s.Searches field kind ∧
        op.TestsAs v negative test ∧ test.Admits kind := by
  simp only [Filter.comparison_eq_ok]
  constructor
  · rintro ⟨f, field, v, kind, negative, test, f₀, hl, hr, hk, hop, hf, -⟩
    exact ⟨field, v, kind, negative, test, hl, hr, hk, hop, Test.exists_filter?_iff.mp ⟨f₀, hf⟩⟩
  · rintro ⟨field, v, kind, negative, test, hl, hr, hk, hop, hadmits⟩
    obtain ⟨f₀, hf⟩ := Test.exists_filter?_iff.mpr hadmits
    exact ⟨_, field, v, kind, negative, test, f₀, hl, hr, hk, hop, hf, rfl⟩

/-- Below an operator that is no connective, a comparison compiles exactly if it is a range or an
equality of the grammar. -/
theorem isPredicate_comparison_iff {s : Schema} {op : BinaryOp} {l r : Expr}
    (hop : ¬ op.isLogical = true) :
    IsPredicate s (.binary op l r) ↔ ∃ f, Filter.comparison s op l r = .ok f := by
  rw [comparison_ok_iff]
  constructor
  · intro h
    cases h with
    | both _ _ | either _ _ => exact absurd rfl hop
    | range hmem hl hr hk =>
      have hrange : op.isRange = true := by
        simp only [List.mem_cons, List.not_mem_nil, or_false] at hmem
        rcases hmem with rfl | rfl | rfl | rfl <;> rfl
      exact ⟨_, _, _, _, _, hl, hr, hk, .range hrange, hmem, rfl⟩
    | equality hmem hl hr hk hkind =>
      simp only [List.mem_cons, List.not_mem_nil, or_false] at hmem
      rcases hmem with rfl | rfl
      · exact ⟨_, _, _, _, _, hl, hr, hk, .eq, hkind⟩
      · exact ⟨_, _, _, _, _, hl, hr, hk, .ne, hkind⟩
  · rintro ⟨field, v, kind, negative, test, hl, hr, hk, htest, hadmits⟩
    cases htest with
    | eq => exact .equality (by simp) hl hr hk hadmits
    | ne => exact .equality (by simp) hl hr hk hadmits
    | range _ =>
      obtain ⟨hmem, rfl⟩ := hadmits
      exact .range hmem hl hr hk

theorem isPredicate_logical_iff {s : Schema} {op : BinaryOp} {l r : Expr}
    (hop : op.isLogical = true) :
    IsPredicate s (.binary op l r) ↔ IsPredicate s l ∧ IsPredicate s r := by
  constructor
  · intro h
    cases h with
    | both hl hr | either hl hr => exact ⟨hl, hr⟩
    | range hmem _ _ _ | equality hmem _ _ _ _ =>
      cases op <;> cases hop <;> simp at hmem
  · rintro ⟨hl, hr⟩
    cases op <;> cases hop
    · exact .both hl hr
    · exact .either hl hr

/-- A field on its own compiles exactly if it can be tested for being true. -/
theorem isPredicate_member_iff {s : Schema} {name : String} :
    IsPredicate s (.member name) ↔ ∃ f, Filter.truth s name = .ok f := by
  unfold Filter.truth
  rw [comparison_ok_iff]
  constructor
  · intro h
    cases h with
    | member hk hkind =>
      exact ⟨_, _, _, _, _, .member name, .constant (.bool true), hk, .eq, hkind⟩
  · rintro ⟨field, v, kind, negative, test, hl, hr, hk, htest, hadmits⟩
    cases hl
    cases htest with
    | eq => exact .member hk hadmits
    | range h => cases h

/-- A call compiles exactly if it is one of the grammar. -/
theorem ofCall_ok_iff {s : Schema} {name : String} {args : List Expr} :
    (∃ f, Filter.ofCall s name args = .ok f) ↔ IsPredicate s (.call name args) := by
  simp only [Filter.ofCall_eq_ok]
  constructor
  · rintro ⟨f, field, test, kind, hcall, hk, hfilter⟩
    have hadmits := Test.exists_filter?_iff.mp ⟨f, hfilter⟩
    cases hcall with
    | equals hf hv => exact .equals hf hv hk hadmits
    | oneOf hvs hf => exact .membership hvs hadmits.1 hf hk hadmits.2
    | contains hf hv => exact .containment (fun vs hvs => hvs.not_refersTo hf) hf hv hk hadmits
    | startsWith hf hv => exact .affix (by simp) hf hv hk hadmits
    | endsWith hf hv => exact .affix (by simp) hf hv hk hadmits
    | within hf hx hy hr hunit hu =>
      obtain rfl : kind = .geo := hadmits
      exact .geo hf hk hx hy hr hunit hu
  · intro h
    have hleaf : ∃ field test kind, CallTests name args field test ∧ s.Searches field kind ∧
        test.Admits kind := by
      cases h with
      | equals hf hv hk hkind => exact ⟨_, _, _, .equals hf hv, hk, hkind⟩
      | membership hvs hne hf hk hkind => exact ⟨_, _, _, .oneOf hvs hf, hk, hne, hkind⟩
      | containment _ hf hv hk hkind => exact ⟨_, _, _, .contains hf hv, hk, hkind⟩
      | affix hname hf hv hk hkind =>
        simp only [List.mem_cons, List.not_mem_nil, or_false] at hname
        rcases hname with rfl | rfl
        · exact ⟨_, _, _, .startsWith hf hv, hk, hkind⟩
        · exact ⟨_, _, _, .endsWith hf hv, hk, hkind⟩
      | geo hf hk hx hy hr hunit hu => exact ⟨_, _, _, .within hf hx hy hr hunit hu, hk, rfl⟩
    obtain ⟨field, test, kind, hcall, hk, hadmits⟩ := hleaf
    obtain ⟨f, hf⟩ := Test.exists_filter?_iff.mpr hadmits
    exact ⟨f, field, test, kind, hcall, hk, hf⟩

/-! ## 4. Predicates -/

theorem exists_map_eq_ok {α β : Type} {x : Compiled α} {f : α → β} :
    (∃ b, x.map f = .ok b) ↔ ∃ a, x = .ok a := by
  simp only [Compiled.map_eq_ok]
  constructor
  · rintro ⟨b, a, ha, -⟩
    exact ⟨a, ha⟩
  · rintro ⟨a, ha⟩
    exact ⟨f a, a, ha, rfl⟩

/-- Where a predicate stands does not matter for whether it compiles.  By recursion on the
expression, each leaf by its own lemma. -/
theorem build_ok_iff {s : Schema} : ∀ (pos : Filter.Position) (e : Expr),
    (∃ f, Filter.build s pos e = .ok f) ↔ IsPredicate s e
  | pos, .binary op l r => by
    by_cases hop : op.isLogical = true
    · rw [isPredicate_logical_iff hop, ← build_ok_iff .operand l, ← build_ok_iff .operand r]
      simp only [Filter.build_logical_eq_ok hop]
      constructor
      · rintro ⟨f, join, fl, fr, -, hfl, hfr, -⟩
        exact ⟨⟨fl, hfl⟩, ⟨fr, hfr⟩⟩
      · rintro ⟨⟨fl, hfl⟩, ⟨fr, hfr⟩⟩
        obtain ⟨join, hjoin⟩ : ∃ join, Filter.connective op = .ok join := by
          cases op <;> cases hop <;> exact ⟨_, rfl⟩
        exact ⟨_, join, fl, fr, hjoin, hfl, hfr, rfl⟩
    · rw [isPredicate_comparison_iff hop]
      simp only [Filter.build_comparison_eq_ok hop]
      constructor
      · rintro ⟨f, f₀, hf₀, -⟩
        exact ⟨f₀, hf₀⟩
      · rintro ⟨f₀, hf₀⟩
        exact ⟨_, f₀, hf₀, rfl⟩
  | pos, .unary .not e => by
    rw [Filter.build, exists_map_eq_ok, build_ok_iff .alone e]
    constructor
    · exact .not
    · intro h
      cases h with
      | not h => exact h
  | pos, .unary .convert e => by
    rw [Filter.build, build_ok_iff pos e]
    constructor
    · exact .convert
    · intro h
      cases h with
      | convert h => exact h
  | pos, .lambda e => by
    rw [Filter.build, build_ok_iff pos e]
    constructor
    · exact .lambda
    · intro h
      cases h with
      | lambda h => exact h
  | pos, .member name => by
    rw [Filter.build, exists_map_eq_ok, isPredicate_member_iff]
  | pos, .call name args => by
    rw [Filter.build]
    exact ofCall_ok_iff
  | pos, .unary .negate _ | pos, .constant _ | pos, .record _ => by
    -- neither a compile nor a rule of the grammar
    constructor
    · rintro ⟨f, hf⟩
      cases hf
    · intro h
      cases h
termination_by structural _ e => e

/-- **The compiler accepts exactly the predicates of the grammar.** -/
theorem filterText_accepts_iff (s : Schema) (e : Expr) :
    (∃ t, filterText s e = .ok t) ↔ IsPredicate s e := by
  rw [← build_ok_iff .alone e]
  simp only [filterText, Filter.ofExpr, Compiled.map_eq_ok]
  constructor
  · rintro ⟨t, f, hf, -⟩
    exact ⟨f, hf⟩
  · rintro ⟨f, hf⟩
    exact ⟨_, f, hf, rfl⟩

end IndexQuery
