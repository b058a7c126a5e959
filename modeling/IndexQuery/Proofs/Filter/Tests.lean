/-
# What a comparison tests

Every leaf of a predicate tests one field, whatever it is written as: a comparison, a field on its
own or a call.  This module says which test each form is, apart from how it is compiled, and then
gives each translator its one specification: it succeeds exactly if its operands have the right
form, the schema lets the field be searched, and the kind of the field has a filter for the test.

The forms of operands are relations.  `Expr.RefersTo e f` says that `e` is a reference to the field
`f`, `Expr.HasValue e v` that `e` is the constant `v`; conversions are the only wrappers that both
look through.  `Test.filter?` is the table of tests and kinds.

The specifications come in layers, and each one uses only those before it:

* operands (`fieldOperand_eq_ok`, `constantOperand_eq_ok`, `searchKind_eq_ok`);
* comparisons (`Filter.comparison_eq_ok`) and the handlers of single calls;
* all calls at once (`Filter.ofCall_eq_ok`), by `CallTests`;
* binary nodes, where a connective and a comparison are told apart (`build_logical_eq_ok`,
  `build_comparison_eq_ok`).

What is proved about predicates elsewhere goes by the last two and does not open a translator again.
-/
import IndexQuery.Filter.OfExpr
import IndexQuery.Proofs.Compiled

namespace IndexQuery

/-! ## 1. Operands

A comparison wants a field on its left and a constant on its right, and so do the calls, in places of
their own.  The relations say what such an operand looks like.  Where the compiler reports an error, none
of their rules applies. -/

/-- **A field reference.**  A member, or a call by its first constant argument, below any number of
conversions. -/
inductive Expr.RefersTo : Expr → String → Prop
  | member (name : String) : RefersTo (.member name) name
  | call {name : String} {before after : List Expr} {value : Json} :
      (∀ e ∈ before, e.constant? = none) →
      RefersTo (.call name (before ++ .constant value :: after)) value.plain
  | convert {e : Expr} {field : String} : RefersTo e field → RefersTo (.unary .convert e) field

/-- **A constant**, below any number of conversions. -/
inductive Expr.HasValue : Expr → Json → Prop
  | constant (value : Json) : HasValue (.constant value) value
  | convert {e : Expr} {value : Json} : HasValue e value → HasValue (.unary .convert e) value

/-- A field reference below any number of lambdas and conversions. -/
inductive Expr.RefersBelow : Expr → String → Prop
  | ref {e : Expr} {field : String} : e.RefersTo field → RefersBelow e field
  | lambda {e : Expr} {field : String} : RefersBelow e field → RefersBelow (.lambda e) field
  | convert {e : Expr} {field : String} :
      RefersBelow e field → RefersBelow (.unary .convert e) field

/-- A field that is mapped, may be searched and resolves to a kind. -/
def Schema.Searches (s : Schema) (field : String) (kind : FieldKind) : Prop :=
  ∃ spec, s.field? field = some spec ∧ spec.searchable = true ∧ spec.resolved = kind

/-! ### Looking for an operand

For each relation, the function that looks for such an operand succeeds exactly on it.  The functions
recurse through wrappers, and the induction is along that recursion; the last case of each is the error for
a node of the wrong shape. -/

theorem Expr.eq_constant_of_constant? {e : Expr} {value : Json} (h : e.constant? = some value) :
    e = .constant value := by
  cases e with
  | constant v =>
    cases h
    rfl
  | _ => cases h

/-- A call refers to the field that its first constant argument names.  The rule says "first" by what stands
before it, which is what a search that succeeds leaves behind. -/
theorem Expr.fieldOperand_call_eq_ok {name : String} {args : List Expr} {field : String} :
    (Expr.call name args).fieldOperand = .ok field ↔ (Expr.call name args).RefersTo field := by
  constructor
  · intro h
    simp only [fieldOperand, resolveField] at h
    split at h
    · next value hfind =>
      cases h
      obtain ⟨before, e, after, rfl, he, hbefore⟩ := List.findSome?_eq_some_iff.mp hfind
      rw [Expr.eq_constant_of_constant? he]
      exact .call hbefore
    · cases h
  · intro h
    cases h with
    | @call _ before after value hbefore =>
      have hfind : (before ++ .constant value :: after).findSome? constant? = some value :=
        List.findSome?_eq_some_iff.mpr ⟨before, .constant value, after, rfl, rfl, hbefore⟩
      simp only [fieldOperand, resolveField, hfind]

theorem Expr.fieldOperand_eq_ok {e : Expr} {field : String} :
    e.fieldOperand = .ok field ↔ e.RefersTo field := by
  fun_induction fieldOperand e with
  | case1 name =>
    constructor
    · intro h
      cases h
      exact .member _
    · intro h
      cases h
      rfl
  | case2 name args => exact fieldOperand_call_eq_ok
  | case3 operand ih =>
    rw [ih]
    constructor
    · exact .convert
    · intro h
      cases h
      assumption
  | case4 e hmember hcall hconvert =>
    -- an error, and a node that no rule speaks of
    constructor
    · intro h
      cases h
    · intro h
      cases h with
      | member _ => exact absurd rfl (hmember _)
      | call _ => exact absurd rfl (hcall _ _)
      | convert _ => exact absurd rfl (hconvert _)

theorem Expr.constantOperand_eq_ok {e : Expr} {value : Json} :
    e.constantOperand = .ok value ↔ e.HasValue value := by
  fun_induction constantOperand e with
  | case1 v =>
    constructor
    · intro h
      cases h
      exact .constant _
    · intro h
      cases h
      rfl
  | case2 operand ih =>
    rw [ih]
    constructor
    · exact .convert
    · intro h
      cases h
      assumption
  | case3 e hconstant hconvert =>
    constructor
    · intro h
      cases h
    · intro h
      cases h with
      | constant _ => exact absurd rfl (hconstant _)
      | convert _ => exact absurd rfl (hconvert _)

/-- The field of a radius may also stand below lambdas, which are taken off before the search. -/
theorem Expr.fieldOperand_peel_eq_ok {e : Expr} {field : String} :
    e.peel.fieldOperand = .ok field ↔ e.RefersBelow field := by
  fun_induction peel e with
  | case1 body ih =>
    rw [ih]
    constructor
    · exact .lambda
    · intro h
      cases h with
      | ref h => cases h
      | lambda h => exact h
  | case2 operand ih =>
    rw [ih]
    constructor
    · exact .convert
    · intro h
      cases h with
      | ref h =>
        -- a conversion is a wrapper of both relations, so the two rules meet here
        cases h with
        | convert h => exact .ref h
      | convert h => exact h
  | case3 e hlambda hconvert =>
    rw [fieldOperand_eq_ok]
    constructor
    · exact .ref
    · intro h
      cases h with
      | ref h => exact h
      | lambda _ => exact absurd rfl (hlambda _)
      | convert _ => exact absurd rfl (hconvert _)

/-- A field that is not mapped and one that may not be searched are refused alike. -/
theorem Schema.searchKind_eq_ok {s : Schema} {field : String} {kind : FieldKind} :
    s.searchKind field = .ok kind ↔ s.Searches field kind := by
  unfold searchKind Searches
  cases s.field? field with
  | none => simp
  | some spec => by_cases h : spec.searchable = true <;> simp [h]

theorem Schema.Searches.ne_indexed {s : Schema} {field : String} {kind : FieldKind}
    (h : s.Searches field kind) : kind ≠ .indexed := by
  obtain ⟨spec, -, -, rfl⟩ := h
  exact spec.resolved_ne_indexed

/-! ## 2. Tests, and the table of kinds

A test is what a leaf asks, without the field and in one form for all notations: `a == 1`, `Equals(a, 1)`
and a bare `a` are all `equals`.  The kind of the field then decides on the clause. -/

/-- What is asked of a field. -/
inductive Test where
  | equals (value : Json)
  | compares (op : BinaryOp) (value : Json)
  | contains (value : Json)
  | startsWith (value : Json)
  | endsWith (value : Json)
  | oneOf (values : List Json)
  | within (longitude latitude radius : Binary64) (unit : GeoUnit)

/-- **The table.**  The filter of a test on a field of a kind, if the kind has one.  A list is one
clause, except that several numbers are a choice of clauses; on a tag field a containment tests the whole
value. -/
def Test.filter? (field : String) : Test → FieldKind → Option Filter
  | equals v, .tag => some (.clause (.tag field [⟨v.plain, false, false⟩]))
  | equals v, .text => some (.clause (.phrase field v.plain))
  | equals v, .numeric => some (.clause (.exactly field (numericText v)))
  | compares .gt v, .numeric =>
    some (.clause (.range field (.exclusive (numericText v)) .unbounded))
  | compares .lt v, .numeric =>
    some (.clause (.range field .unbounded (.exclusive (numericText v))))
  | compares .ge v, .numeric =>
    some (.clause (.range field (.inclusive (numericText v)) .unbounded))
  | compares .le v, .numeric =>
    some (.clause (.range field .unbounded (.inclusive (numericText v))))
  | contains v, .tag => some (.clause (.tag field [⟨v.plain, false, false⟩]))
  | contains v, .text => some (.clause (.wildcard field ⟨v.plain, true, true⟩))
  | startsWith v, .tag => some (.clause (.tag field [⟨v.plain, false, true⟩]))
  | startsWith v, .text => some (.clause (.wildcard field ⟨v.plain, false, true⟩))
  | endsWith v, .tag => some (.clause (.tag field [⟨v.plain, true, false⟩]))
  | endsWith v, .text => some (.clause (.wildcard field ⟨v.plain, true, false⟩))
  | oneOf [], _ => none
  | oneOf vs, .tag => some (.clause (.tag field (vs.map fun v => ⟨v.plain, false, false⟩)))
  | oneOf vs, .text => some (.clause (.words field (vs.map Json.plain)))
  | oneOf [v], .numeric => some (.clause (.exactly field (numericText v)))
  | oneOf vs, .numeric => some (.anyOf (vs.map fun v => .exactly field (numericText v)))
  | within longitude latitude radius unit, .geo =>
    some (.clause (.geo ⟨field, longitude, latitude, radius, unit⟩))
  | _, _ => none

/-! ## 3. Comparisons

The six comparisons are two families.  `==` and `!=` are one test, the second negated, and exist for every
kind that can be compared; the four ranges are tests of their own, for numbers alone. -/

/-- **The test that an operator with a constant is**, and whether it is negated. -/
inductive BinaryOp.TestsAs : BinaryOp → Json → Bool → Test → Prop
  | eq {v : Json} : TestsAs .eq v false (.equals v)
  | ne {v : Json} : TestsAs .ne v true (.equals v)
  | range {op : BinaryOp} {v : Json} : op.isRange = true → TestsAs op v false (.compares op v)

/-- The filter or its negation. -/
def Filter.negatedIf (negative : Bool) (f : Filter) : Filter :=
  if negative then .negated f else f

/-- The clause of an equality is the entry of the table. -/
theorem Clause.equals_eq_ok {field : String} {kind : FieldKind} {v : Json} {c : Clause} :
    Clause.equals field kind v = .ok c ↔ (Test.equals v).filter? field kind = some (.clause c) := by
  cases kind <;> simp [Clause.equals, Test.filter?]

/-- An equality is a single clause, whatever the kind.  The table alone does not show this: its entries are
filters, and only a list of numbers needs more than a clause. -/
theorem Test.filter?_equals_eq_clause {field : String} {kind : FieldKind} {v : Json} {f : Filter}
    (h : (Test.equals v).filter? field kind = some f) : ∃ c, f = .clause c := by
  cases kind with
  | tag | text | numeric =>
    cases h
    exact ⟨_, rfl⟩
  | _ => cases h

theorem Clause.ranges_eq_ok {field : String} {kind : FieldKind} {low high : Bound} {c : Clause} :
    Clause.ranges field kind low high = .ok c ↔ kind = .numeric ∧ .range field low high = c := by
  cases kind <;> simp [Clause.ranges]

/-- **What a comparison compiles to.**  Both directions go operator by operator, since each operator has its
own line in the compiler. -/
theorem Filter.comparison_eq_ok {s : Schema} {op : BinaryOp} {left right : Expr} {f : Filter} :
    comparison s op left right = .ok f ↔
      ∃ field v kind negative test f₀, left.RefersTo field ∧ right.HasValue v ∧
        s.Searches field kind ∧ op.TestsAs v negative test ∧
        test.filter? field kind = some f₀ ∧ f = f₀.negatedIf negative := by
  unfold comparison
  simp only [Compiled.bind_eq_ok, Expr.fieldOperand_eq_ok, Expr.constantOperand_eq_ok,
    Schema.searchKind_eq_ok]
  constructor
  · rintro ⟨field, hl, v, hr, kind, hk, h⟩
    refine ⟨field, v, kind, ?_⟩
    cases op with
    | gt | lt | ge | le =>
      obtain ⟨c, hc, rfl⟩ := Compiled.map_eq_ok.mp h
      obtain ⟨rfl, rfl⟩ := Clause.ranges_eq_ok.mp hc
      exact ⟨false, _, _, hl, hr, hk, .range rfl, rfl, rfl⟩
    | eq =>
      obtain ⟨c, hc, rfl⟩ := Compiled.map_eq_ok.mp h
      exact ⟨false, _, _, hl, hr, hk, .eq, Clause.equals_eq_ok.mp hc, rfl⟩
    | ne =>
      obtain ⟨c, hc, rfl⟩ := Compiled.map_eq_ok.mp h
      exact ⟨true, _, _, hl, hr, hk, .ne, Clause.equals_eq_ok.mp hc, rfl⟩
    | _ => cases h
  · rintro ⟨field, v, kind, negative, test, f₀, hl, hr, hk, hop, hf, rfl⟩
    refine ⟨field, hl, v, hr, kind, hk, ?_⟩
    cases hop with
    | eq =>
      obtain ⟨c, rfl⟩ := Test.filter?_equals_eq_clause hf
      exact Compiled.map_eq_ok.mpr ⟨c, Clause.equals_eq_ok.mpr hf, rfl⟩
    | ne =>
      obtain ⟨c, rfl⟩ := Test.filter?_equals_eq_clause hf
      exact Compiled.map_eq_ok.mpr ⟨c, Clause.equals_eq_ok.mpr hf, rfl⟩
    | range hrange =>
      -- four operators and one kind are left
      cases op <;> cases hrange <;> cases kind <;> cases hf <;> rfl

/-! ## 4. Calls

Five names are calls of the query language, with two arguments each but for the radius, which has five.
`Contains` is two tests under one name: with a constant list in front it asks whether the field is one of
its members, and otherwise whether the field contains a value. -/

/-- The names of the units of length, in lower case. -/
def geoUnitNames : List (String × GeoUnit) :=
  [("m", .meters), ("meter", .meters), ("meters", .meters), ("km", .kilometers),
   ("kilometer", .kilometers), ("kilometers", .kilometers), ("mi", .miles), ("mile", .miles),
   ("miles", .miles), ("ft", .feet), ("foot", .feet), ("feet", .feet)]

/-- A unit is named in any case of letters. -/
theorem GeoUnit.ofName?_eq_some_iff {name : String} {unit : GeoUnit} :
    ofName? name = some unit ↔ (lowerText name, unit) ∈ geoUnitNames := by
  unfold ofName?
  constructor
  · intro h
    split at h <;> cases h <;> simp [geoUnitNames, *]
  · intro h
    simp only [geoUnitNames, List.mem_cons, Prod.mk.injEq, List.not_mem_nil, or_false] at h
    rcases h with ⟨hname, rfl⟩ | ⟨hname, rfl⟩ | ⟨hname, rfl⟩ | ⟨hname, rfl⟩ | ⟨hname, rfl⟩ |
      ⟨hname, rfl⟩ | ⟨hname, rfl⟩ | ⟨hname, rfl⟩ | ⟨hname, rfl⟩ | ⟨hname, rfl⟩ | ⟨hname, rfl⟩ |
      ⟨hname, rfl⟩
    all_goals simp only [hname]

/-- **The test that a call is**, with the field that it is about. -/
inductive CallTests : String → List Expr → String → Test → Prop
  | equals {target value : Expr} {field : String} {v : Json} :
      target.RefersTo field → value.HasValue v →
      CallTests "Equals" [target, value] field (.equals v)
  | oneOf {list item : Expr} {field : String} {vs : List Json} :
      list.HasValue (.arr vs) → item.RefersTo field →
      CallTests "Contains" [list, item] field (.oneOf vs)
  | contains {target value : Expr} {field : String} {v : Json} :
      target.RefersTo field → value.HasValue v →
      CallTests "Contains" [target, value] field (.contains v)
  | startsWith {target value : Expr} {field : String} {v : Json} :
      target.RefersTo field → value.HasValue v →
      CallTests "StartsWith" [target, value] field (.startsWith v)
  | endsWith {target value : Expr} {field : String} {v : Json} :
      target.RefersTo field → value.HasValue v →
      CallTests "EndsWith" [target, value] field (.endsWith v)
  | within {target longitude latitude radius unit : Expr} {field : String} {x y r : Number}
      {name : Json} {u : GeoUnit} :
      target.RefersBelow field → longitude.HasValue (.num x) → latitude.HasValue (.num y) →
      radius.HasValue (.num r) → unit.HasValue name → (lowerText name.plain, u) ∈ geoUnitNames →
      CallTests "GeoFilter" [target, longitude, latitude, radius, unit] field
        (.within x.toBinary64 y.toBinary64 r.toBinary64 u)

/-- A constant is no field reference.  This is what keeps the two tests of `Contains` apart. -/
theorem Expr.HasValue.not_refersTo {e : Expr} {v : Json} {field : String} (h : e.HasValue v) :
    ¬ e.RefersTo field := by
  intro hf
  induction h with
  | constant v => cases hf
  | convert _ ih =>
    cases hf with
    | convert hf => exact ih hf

/-! ### The handlers

Each handler has one lemma of the same form: the arguments, what the operands are, the kind of the field,
and the entry of the table.  Errors differ in where they come from and in their texts, but not in this. -/

theorem Filter.twoArgs_eq_ok {name : String} {args : List Expr} {a b : Expr} :
    twoArgs name args = .ok (a, b) ↔ args = [a, b] := by
  unfold twoArgs
  split
  · simp
  · next hargs =>
    constructor
    · intro h
      cases h
    · rintro rfl
      exact absurd rfl (hargs a b)

/-- A coordinate or a radius is a number of any kind, rounded to binary64. -/
theorem Filter.numberArg_eq_ok {context : String} {e : Expr} {x : Binary64} :
    numberArg context e = .ok x ↔ ∃ n : Number, e.HasValue (.num n) ∧ x = n.toBinary64 := by
  unfold numberArg
  simp only [Compiled.bind_eq_ok, Expr.constantOperand_eq_ok]
  constructor
  · rintro ⟨v, hv, h⟩
    cases v with
    | num n =>
      cases h
      exact ⟨n, hv, rfl⟩
    | _ => cases h
  · rintro ⟨n, hn, rfl⟩
    exact ⟨.num n, hn, rfl⟩

theorem Filter.equals_eq_ok {s : Schema} {args : List Expr} {f : Filter} :
    equals s args = .ok f ↔ ∃ target value field v kind, args = [target, value] ∧
      target.RefersTo field ∧ value.HasValue v ∧ s.Searches field kind ∧
      (Test.equals v).filter? field kind = some f := by
  unfold equals
  simp only [Compiled.bind_eq_ok, Prod.exists, twoArgs_eq_ok, Expr.fieldOperand_eq_ok,
    Expr.constantOperand_eq_ok, Schema.searchKind_eq_ok, Clause.equals_eq_ok]
  constructor
  · rintro ⟨target, value, rfl, field, hf, kind, hk, v, hv, c, hc, h⟩
    cases h
    exact ⟨target, value, field, v, kind, rfl, hf, hv, hk, hc⟩
  · rintro ⟨target, value, field, v, kind, rfl, hf, hv, hk, h⟩
    obtain ⟨c, rfl⟩ := Test.filter?_equals_eq_clause h
    exact ⟨target, value, rfl, field, hf, kind, hk, v, hv, c, h, rfl⟩

/-- A list without members is refused before the field is looked at; in the table it has no entry. -/
theorem Filter.membership_eq_ok {s : Schema} {field : String} {vs : List Json} {f : Filter} :
    membership s field vs = .ok f ↔
      ∃ kind, s.Searches field kind ∧ (Test.oneOf vs).filter? field kind = some f := by
  cases vs with
  | nil =>
    constructor
    · intro h
      cases h
    · rintro ⟨kind, -, h⟩
      cases kind <;> cases h
  | cons v vs =>
    unfold membership
    rw [if_neg (by simp)]
    simp only [Compiled.bind_eq_ok, Schema.searchKind_eq_ok]
    refine exists_congr fun kind => and_congr_right fun _ => ?_
    cases kind with
    | numeric =>
      cases vs <;> simp [Test.filter?, pure, Except.pure]
    | _ => simp [Test.filter?, pure, Except.pure]

theorem Filter.containment_eq_ok {s : Schema} {target item : Expr} {f : Filter} :
    containment s target item = .ok f ↔ ∃ field v kind, target.RefersTo field ∧ item.HasValue v ∧
      s.Searches field kind ∧ (Test.contains v).filter? field kind = some f := by
  unfold containment
  simp only [Compiled.bind_eq_ok, Expr.fieldOperand_eq_ok, Expr.constantOperand_eq_ok,
    Schema.searchKind_eq_ok]
  constructor
  · rintro ⟨field, hf, v, hv, kind, hk, h⟩
    refine ⟨field, v, kind, hf, hv, hk, ?_⟩
    cases kind <;> cases h <;> rfl
  · rintro ⟨field, v, kind, hf, hv, hk, h⟩
    refine ⟨field, hf, v, hv, kind, hk, ?_⟩
    cases kind <;> cases h <;> rfl

theorem Filter.contains_eq_ok {s : Schema} {args : List Expr} {f : Filter} :
    contains s args = .ok f ↔
      ∃ field test kind, CallTests "Contains" args field test ∧ s.Searches field kind ∧
        test.filter? field kind = some f := by
  unfold contains
  simp only [Compiled.bind_eq_ok, Prod.exists, twoArgs_eq_ok]
  constructor
  · rintro ⟨target, item, rfl, h⟩
    split at h
    · next vs hvs =>
      obtain ⟨field, hf, h⟩ := Compiled.bind_eq_ok.mp h
      obtain ⟨kind, hk, h⟩ := membership_eq_ok.mp h
      exact ⟨field, _, kind,
        .oneOf (Expr.constantOperand_eq_ok.mp hvs) (Expr.fieldOperand_eq_ok.mp hf), hk, h⟩
    · obtain ⟨field, v, kind, hf, hv, hk, h⟩ := containment_eq_ok.mp h
      exact ⟨field, _, kind, .contains hf hv, hk, h⟩
  · rintro ⟨field, test, kind, hcall, hk, h⟩
    generalize hname : "Contains" = name at hcall
    cases hcall with
    | @oneOf list item _ vs hvs hf =>
      refine ⟨list, item, rfl, ?_⟩
      rw [Expr.constantOperand_eq_ok.mpr hvs, Expr.fieldOperand_eq_ok.mpr hf]
      exact membership_eq_ok.mpr ⟨kind, hk, h⟩
    | @contains target value _ v hf hv =>
      refine ⟨target, value, rfl, ?_⟩
      split
      -- the compiler looks for a list first, and a field reference is none
      · next vs hvs => exact absurd hf (Expr.constantOperand_eq_ok.mp hvs).not_refersTo
      · exact containment_eq_ok.mpr ⟨field, v, kind, hf, hv, hk, h⟩
    | _ => simp at hname

/-- The test of a call that looks at one end of a value. -/
def Test.ofAffix : FieldTest → Json → Test
  | .startsWith, v => .startsWith v
  | _, v => .endsWith v

theorem Filter.affix_eq_ok {s : Schema} {test : FieldTest} {args : List Expr} {f : Filter}
    (htest : test = .startsWith ∨ test = .endsWith) :
    affix s test args = .ok f ↔ ∃ target value field v kind, args = [target, value] ∧
      target.RefersTo field ∧ value.HasValue v ∧ s.Searches field kind ∧
      (Test.ofAffix test v).filter? field kind = some f := by
  unfold affix
  simp only [Compiled.bind_eq_ok, Prod.exists, twoArgs_eq_ok, Expr.fieldOperand_eq_ok,
    Expr.constantOperand_eq_ok, Schema.searchKind_eq_ok]
  constructor
  · rintro ⟨target, value, rfl, field, hf, v, hv, kind, hk, h⟩
    refine ⟨target, value, field, v, kind, rfl, hf, hv, hk, ?_⟩
    rcases htest with rfl | rfl <;> cases kind <;> cases h <;> rfl
  · rintro ⟨target, value, field, v, kind, rfl, hf, hv, hk, h⟩
    refine ⟨target, value, rfl, field, hf, v, hv, kind, hk, ?_⟩
    rcases htest with rfl | rfl <;> cases kind <;> cases h <;> rfl

/-- A radius is also the stage of a search, which keeps it apart from the filters; hence a lemma about the
radius itself, and not about its clause. -/
theorem Filter.geoRadius_eq_ok {s : Schema} {args : List Expr} {g : GeoRadius} :
    geoRadius s args = .ok g ↔ ∃ field test, CallTests "GeoFilter" args field test ∧
      s.Searches field .geo ∧ test.filter? field .geo = some (.clause (.geo g)) := by
  constructor
  · intro h
    unfold geoRadius at h
    split at h
    · obtain ⟨field, hf, h⟩ := Compiled.bind_eq_ok.mp h
      obtain ⟨kind, hk, h⟩ := Compiled.bind_eq_ok.mp h
      split at h
      · cases h
      · next hgeo =>
        obtain rfl : kind = .geo := Decidable.not_not.mp hgeo
        obtain ⟨name, hname, h⟩ := Compiled.bind_eq_ok.mp h
        simp only at h
        split at h
        · cases h
        · next u hu =>
          obtain ⟨x, hx, h⟩ := Compiled.bind_eq_ok.mp h
          obtain ⟨y, hy, h⟩ := Compiled.bind_eq_ok.mp h
          obtain ⟨r, hr, h⟩ := Compiled.bind_eq_ok.mp h
          cases h
          obtain ⟨x, hx', rfl⟩ := numberArg_eq_ok.mp hx
          obtain ⟨y, hy', rfl⟩ := numberArg_eq_ok.mp hy
          obtain ⟨r, hr', rfl⟩ := numberArg_eq_ok.mp hr
          exact ⟨field, _, .within (Expr.fieldOperand_peel_eq_ok.mp hf) hx' hy' hr'
            (Expr.constantOperand_eq_ok.mp hname) (GeoUnit.ofName?_eq_some_iff.mp hu),
            Schema.searchKind_eq_ok.mp hk, rfl⟩
    · cases h
  · rintro ⟨field, test, hcall, hk, h⟩
    generalize hname : "GeoFilter" = name at hcall
    cases hcall with
    | @within _ _ _ _ _ _ x y r name u hf hx hy hr hunit hu =>
      cases h
      refine Compiled.bind_eq_ok.mpr ⟨field, Expr.fieldOperand_peel_eq_ok.mpr hf, ?_⟩
      refine Compiled.bind_eq_ok.mpr ⟨.geo, Schema.searchKind_eq_ok.mpr hk, ?_⟩
      rw [if_neg (by simp)]
      refine Compiled.bind_eq_ok.mpr ⟨name, Expr.constantOperand_eq_ok.mpr hunit, ?_⟩
      simp only [GeoUnit.ofName?_eq_some_iff.mpr hu]
      refine Compiled.bind_eq_ok.mpr ⟨_, numberArg_eq_ok.mpr ⟨x, hx, rfl⟩, ?_⟩
      refine Compiled.bind_eq_ok.mpr ⟨_, numberArg_eq_ok.mpr ⟨y, hy, rfl⟩, ?_⟩
      exact Compiled.bind_eq_ok.mpr ⟨_, numberArg_eq_ok.mpr ⟨r, hr, rfl⟩, rfl⟩
    | _ => simp at hname

/-- **What a call compiles to.**  The names of the compiler are those of `CallTests`, so a call under any
other name is an error on one side and without a rule on the other. -/
theorem Filter.ofCall_eq_ok {s : Schema} {name : String} {args : List Expr} {f : Filter} :
    ofCall s name args = .ok f ↔
      ∃ field test kind, CallTests name args field test ∧ s.Searches field kind ∧
        test.filter? field kind = some f := by
  unfold ofCall
  split
  · exact contains_eq_ok
  · rw [affix_eq_ok (.inl rfl)]
    constructor
    · rintro ⟨target, value, field, v, kind, rfl, hf, hv, hk, h⟩
      exact ⟨field, _, kind, .startsWith hf hv, hk, h⟩
    · rintro ⟨field, test, kind, hcall, hk, h⟩
      generalize hname : "StartsWith" = name at hcall
      cases hcall with
      | startsWith hf hv => exact ⟨_, _, field, _, kind, rfl, hf, hv, hk, h⟩
      | _ => simp at hname
  · rw [affix_eq_ok (.inr rfl)]
    constructor
    · rintro ⟨target, value, field, v, kind, rfl, hf, hv, hk, h⟩
      exact ⟨field, _, kind, .endsWith hf hv, hk, h⟩
    · rintro ⟨field, test, kind, hcall, hk, h⟩
      generalize hname : "EndsWith" = name at hcall
      cases hcall with
      | endsWith hf hv => exact ⟨_, _, field, _, kind, rfl, hf, hv, hk, h⟩
      | _ => simp at hname
  · rw [equals_eq_ok]
    constructor
    · rintro ⟨target, value, field, v, kind, rfl, hf, hv, hk, h⟩
      exact ⟨field, _, kind, .equals hf hv, hk, h⟩
    · rintro ⟨field, test, kind, hcall, hk, h⟩
      generalize hname : "Equals" = name at hcall
      cases hcall with
      | equals hf hv => exact ⟨_, _, field, _, kind, rfl, hf, hv, hk, h⟩
      | _ => simp at hname
  · rw [Compiled.map_eq_ok]
    constructor
    · rintro ⟨g, hg, rfl⟩
      obtain ⟨field, test, hcall, hk, h⟩ := geoRadius_eq_ok.mp hg
      exact ⟨field, test, .geo, hcall, hk, h⟩
    · rintro ⟨field, test, kind, hcall, hk, h⟩
      have hgeo : ∃ g, kind = .geo ∧ f = .clause (.geo g) := by
        generalize hname : "GeoFilter" = name at hcall
        cases hcall with
        | within _ _ _ _ _ _ =>
          cases kind <;> cases h
          exact ⟨_, rfl, rfl⟩
        | _ => simp at hname
      obtain ⟨g, rfl, rfl⟩ := hgeo
      exact ⟨g, geoRadius_eq_ok.mpr ⟨field, test, hcall, hk, h⟩, rfl⟩
  · next hcontains hstarts hends hequals hgeo =>
    constructor
    · intro h
      cases h
    · rintro ⟨field, test, kind, hcall, -, -⟩
      cases hcall with
      | oneOf _ _ | contains _ _ => exact absurd rfl hcontains
      | startsWith _ _ => exact absurd rfl hstarts
      | endsWith _ _ => exact absurd rfl hends
      | equals _ _ => exact absurd rfl hequals
      | within _ _ _ _ _ _ => exact absurd rfl hgeo

/-! ## 5. Binary nodes

A binary node is a connective if its operator is one.  The compiler also takes the way of a connective when
an operand is a binary node itself, and fails there for want of a connective. -/

theorem Expr.RefersTo.isBinary {e : Expr} {field : String} (h : e.RefersTo field) :
    e.isBinary = false := by
  cases h <;> rfl

theorem Expr.HasValue.isBinary {e : Expr} {v : Json} (h : e.HasValue v) : e.isBinary = false := by
  cases h <;> rfl

theorem Filter.build_logical_eq_ok {s : Schema} {pos : Position} {op : BinaryOp} {l r : Expr}
    {f : Filter} (hop : op.isLogical = true) :
    build s pos (.binary op l r) = .ok f ↔
      ∃ join fl fr, connective op = .ok join ∧ build s .operand l = .ok fl ∧
        build s .operand r = .ok fr ∧ f = join fl fr := by
  rw [build, if_pos (by simp [hop])]
  simp only [Compiled.bind_eq_ok]
  constructor
  · rintro ⟨join, hjoin, fl, hfl, fr, hfr, h⟩
    cases h
    exact ⟨join, fl, fr, hjoin, hfl, hfr, rfl⟩
  · rintro ⟨join, fl, fr, hjoin, hfl, hfr, rfl⟩
    exact ⟨join, hjoin, fl, hfl, fr, hfr, rfl⟩

/-- **The guard on the operands decides nothing.**  Below an operator that is no connective a binary
operand makes the compile fail either way. -/
theorem Filter.build_comparison_eq_ok {s : Schema} {pos : Position} {op : BinaryOp} {l r : Expr}
    {f : Filter} (hop : ¬ op.isLogical = true) :
    build s pos (.binary op l r) = .ok f ↔
      ∃ f₀, comparison s op l r = .ok f₀ ∧ pos.place f₀ = f := by
  rw [build]
  split
  · next hguard =>
    constructor
    · intro h
      obtain ⟨join, hjoin, -⟩ := Compiled.bind_eq_ok.mp h
      cases op <;> simp [connective, BinaryOp.isLogical] at hjoin hop
    · rintro ⟨f₀, hf₀, -⟩
      obtain ⟨_, _, _, _, _, _, hl, hr, -⟩ := comparison_eq_ok.mp hf₀
      simp [hl.isBinary, hr.isBinary, hop] at hguard
  · exact Compiled.map_eq_ok

end IndexQuery
