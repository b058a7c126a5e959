/-
# The text of a predicate keeps its meaning

A predicate is a boolean tree over tests of fields (`Condition`), and `Expr.Says` reads that tree
off the expression.  The schema then fixes what each test is in the query language
(`Test.tree?`), decoded, with no escape and no parenthesis left.

The main result is that compiling loses nothing of this: parsing the compiled text by the grammar of
the query language gives the tree of the expression (`parseQuery_filterText`).  Each connective has
its two operands in their order, each negation is where it was, and each leaf has its field and its
constants, whatever characters they hold.

Three things are asked of the expression (`Condition.Readable`), since the compiler writes as they
are a field name, a constant of a numeric field, and what a text field contains or begins with.  The
name has to be a word, the constant a number or a truth value, and a text field may only be tested
for equality.
-/
import IndexQuery.Proofs.Filter.Tests
import IndexQuery.Proofs.Query.Clauses
import IndexQuery.Proofs.Query.Parser

namespace IndexQuery

/-! ## 1. Predicates as boolean trees

What an expression says without any schema: which fields are tested for what, and how the tests are
connected.  Lambdas and conversions say nothing of their own. -/

/-- A boolean tree over tests of fields. -/
inductive Condition where
  | test (field : String) (t : Test)
  | not (c : Condition)
  | both (l r : Condition)
  | either (l r : Condition)

/-- **The boolean tree of an expression.**  Lambdas and conversions say nothing of their own. -/
inductive Expr.Says : Expr → Condition → Prop
  | lambda {e : Expr} {c : Condition} : Says e c → Says (.lambda e) c
  | convert {e : Expr} {c : Condition} : Says e c → Says (.unary .convert e) c
  | not {e : Expr} {c : Condition} : Says e c → Says (.unary .not e) (.not c)
  | both {l r : Expr} {cl cr : Condition} :
      Says l cl → Says r cr → Says (.binary .and l r) (.both cl cr)
  | either {l r : Expr} {cl cr : Condition} :
      Says l cl → Says r cr → Says (.binary .or l r) (.either cl cr)
  | range {op : BinaryOp} {l r : Expr} {field : String} {v : Json} :
      op.isRange = true → l.RefersTo field → r.HasValue v →
      Says (.binary op l r) (.test field (.compares op v))
  | equal {l r : Expr} {field : String} {v : Json} :
      l.RefersTo field → r.HasValue v → Says (.binary .eq l r) (.test field (.equals v))
  | unequal {l r : Expr} {field : String} {v : Json} :
      l.RefersTo field → r.HasValue v → Says (.binary .ne l r) (.not (.test field (.equals v)))
  | member (name : String) : Says (.member name) (.test name (.equals (.bool true)))
  | call {name : String} {args : List Expr} {field : String} {test : Test} :
      CallTests name args field test → Says (.call name args) (.test field test)

/-! ## 2. An expression says one thing

Field references and constants are found by functions, hence there is at most one of each.  A call is told
apart by its name, and the two tests of `Contains` by whether a list stands in front. -/

theorem Expr.RefersTo.unique {e : Expr} {f f' : String} (h : e.RefersTo f) (h' : e.RefersTo f') :
    f = f' := by
  have hok := Expr.fieldOperand_eq_ok.mpr h
  rw [Expr.fieldOperand_eq_ok.mpr h'] at hok
  cases hok
  rfl

theorem Expr.RefersBelow.unique {e : Expr} {f f' : String} (h : e.RefersBelow f)
    (h' : e.RefersBelow f') : f = f' := by
  have hok := Expr.fieldOperand_peel_eq_ok.mpr h
  rw [Expr.fieldOperand_peel_eq_ok.mpr h'] at hok
  cases hok
  rfl

theorem Expr.HasValue.unique {e : Expr} {v v' : Json} (h : e.HasValue v) (h' : e.HasValue v') :
    v = v' := by
  have hok := Expr.constantOperand_eq_ok.mpr h
  rw [Expr.constantOperand_eq_ok.mpr h'] at hok
  cases hok
  rfl

theorem CallTests.unique {name name' : String} {args : List Expr} {f f' : String} {t t' : Test}
    (h : CallTests name args f t) (hname : name = name') (h' : CallTests name' args f' t') :
    f = f' ∧ t = t' := by
  cases h with
  | equals hf hv =>
    cases h' with
    | equals hf' hv' =>
      cases hf.unique hf'
      cases hv.unique hv'
      exact ⟨rfl, rfl⟩
    | _ => simp at hname
  | startsWith hf hv =>
    cases h' with
    | startsWith hf' hv' =>
      cases hf.unique hf'
      cases hv.unique hv'
      exact ⟨rfl, rfl⟩
    | _ => simp at hname
  | endsWith hf hv =>
    cases h' with
    | endsWith hf' hv' =>
      cases hf.unique hf'
      cases hv.unique hv'
      exact ⟨rfl, rfl⟩
    | _ => simp at hname
  | oneOf hvs hf =>
    cases h' with
    | oneOf hvs' hf' =>
      cases hf.unique hf'
      cases hvs.unique hvs'
      exact ⟨rfl, rfl⟩
    | contains hf' _ => exact absurd hf' hvs.not_refersTo
    | _ => simp at hname
  | contains hf hv =>
    cases h' with
    | contains hf' hv' =>
      cases hf.unique hf'
      cases hv.unique hv'
      exact ⟨rfl, rfl⟩
    | oneOf hvs' _ => exact absurd hf hvs'.not_refersTo
    | _ => simp at hname
  | within hf hx hy hr hunit hu =>
    cases h' with
    | within hf' hx' hy' hr' hunit' hu' =>
      cases hf.unique hf'
      cases hx.unique hx'
      cases hy.unique hy'
      cases hr.unique hr'
      cases hunit.unique hunit'
      have hunits := GeoUnit.ofName?_eq_some_iff.mpr hu
      rw [GeoUnit.ofName?_eq_some_iff.mpr hu'] at hunits
      cases hunits
      exact ⟨rfl, rfl⟩

/-- **An expression has at most one boolean tree.** -/
theorem Expr.Says.unique {e : Expr} {c c' : Condition} (h : e.Says c) (h' : e.Says c') :
    c = c' := by
  induction h generalizing c' with
  | lambda _ ih =>
    cases h' with
    | lambda h' => exact ih h'
  | convert _ ih =>
    cases h' with
    | convert h' => exact ih h'
  | not _ ih =>
    cases h' with
    | not h' => rw [ih h']
  | both _ _ ihl ihr =>
    cases h' with
    | both hl hr => rw [ihl hl, ihr hr]
    | range hop _ _ => cases hop
  | either _ _ ihl ihr =>
    cases h' with
    | either hl hr => rw [ihl hl, ihr hr]
    | range hop _ _ => cases hop
  | range hop hl hr =>
    cases h' with
    | range _ hl' hr' =>
      cases hl.unique hl'
      cases hr.unique hr'
      rfl
    | _ => cases hop
  | equal hl hr =>
    cases h' with
    | equal hl' hr' =>
      cases hl.unique hl'
      cases hr.unique hr'
      rfl
    | range hop _ _ => cases hop
  | unequal hl hr =>
    cases h' with
    | unequal hl' hr' =>
      cases hl.unique hl'
      cases hr.unique hr'
      rfl
    | range hop _ _ => cases hop
  | member name =>
    cases h' with
    | member => rfl
  | call hcall =>
    cases h' with
    | call hcall' =>
      obtain ⟨rfl, rfl⟩ := hcall.unique rfl hcall'
      rfl

/-! ## 3. Tests in the query language

The tests once more, as leaves of the query language.  On a text field only equality has one: a containment,
an affix or a list of words writes its constants without escapes, and they cannot be told from the language
around them.  `Readable` leaves these tests out, and numeric tests of constants that are no numbers. -/

/-- A leaf of tag alternatives. -/
def tagLeaf (field : String) (alternatives : List (List TagPiece)) : QueryTree :=
  .leaf ⟨field, .tags alternatives⟩

/-- A leaf of tokens in brackets. -/
def spanLeaf (field : String) (tokens : List RangeToken) : QueryTree :=
  .leaf ⟨field, .span tokens⟩

/-- A leaf that holds for one number. -/
def numberLeaf (field : String) (v : Json) : QueryTree :=
  spanLeaf field [⟨false, numericText v⟩, ⟨false, numericText v⟩]

/-- **What a test is on a field of a kind**, as a tree of the query language; none where the kind has
no such test, or one whose values are written as they are. -/
def Test.tree? (field : String) : Test → FieldKind → Option QueryTree
  | equals v, .tag => some (tagLeaf field [literalPieces v.plain])
  | equals v, .text => some (.leaf ⟨field, .phrase v.plain⟩)
  | equals v, .numeric => some (numberLeaf field v)
  | compares .gt v, .numeric => some (spanLeaf field [⟨true, numericText v⟩, ⟨false, "inf"⟩])
  | compares .lt v, .numeric => some (spanLeaf field [⟨false, "-inf"⟩, ⟨true, numericText v⟩])
  | compares .ge v, .numeric => some (spanLeaf field [⟨false, numericText v⟩, ⟨false, "inf"⟩])
  | compares .le v, .numeric => some (spanLeaf field [⟨false, "-inf"⟩, ⟨false, numericText v⟩])
  | contains v, .tag => some (tagLeaf field [literalPieces v.plain])
  | startsWith v, .tag => some (tagLeaf field [literalPieces v.plain ++ [.wildcard]])
  | endsWith v, .tag => some (tagLeaf field [.wildcard :: literalPieces v.plain])
  | oneOf vs, .tag => some (tagLeaf field (vs.map fun v => literalPieces v.plain))
  | oneOf [v], .numeric => some (numberLeaf field v)
  | oneOf vs, .numeric => some (.joined .any (vs.map (numberLeaf field)))
  | within longitude latitude radius unit, .geo =>
    some (spanLeaf field [⟨false, longitude.plainText⟩, ⟨false, latitude.plainText⟩,
      ⟨false, radius.plainText⟩, ⟨false, unit.name⟩])
  | _, _ => none

/-- **The tree of a condition under a schema**, the connectives over the trees of the tests. -/
def Condition.tree? (s : Schema) : Condition → Option QueryTree
  | test field t => (s.field? field).bind fun spec => t.tree? field spec.resolved
  | not c => (c.tree? s).map .negation
  | both l r => (l.tree? s).bind fun tl => (r.tree? s).map fun tr => .joined .all [tl, tr]
  | either l r => (l.tree? s).bind fun tl => (r.tree? s).map fun tr => .joined .any [tl, tr]

/-- The constants of a test that are not numbers already. -/
def Test.constants : Test → List Json
  | equals v | compares _ v | contains v | startsWith v | endsWith v => [v]
  | oneOf vs => vs
  | within .. => []

/-- A number or a truth value. -/
def Json.isNumberOrBool : Json → Bool
  | .num _ | .bool _ => true
  | _ => false

/-- A test that can be read back from its text. -/
structure Test.Readable (s : Schema) (field : String) (t : Test) : Prop where
  word : IsWord field
  numeric : s.Searches field .numeric → ∀ v ∈ t.constants, v.isNumberOrBool = true
  text : s.Searches field .text → ∃ v, t = .equals v

/-- A condition whose tests can all be read back. -/
def Condition.Readable (s : Schema) : Condition → Prop
  | test field t => t.Readable s field
  | not c => c.Readable s
  | both l r | either l r => l.Readable s ∧ r.Readable s

/-! ## 4. Leaves

Kind by kind, the text of a test's filter is a text of the test's leaf. -/

theorem isNumeral_numericText {v : Json} (h : v.isNumberOrBool = true) :
    IsNumeral (numericText v).toList := by
  cases v with
  | num n => exact n.isNumeral_text
  | bool b =>
    have hone : IsNumeral "1".toList := isNumeral_repr 1
    have hzero : IsNumeral "0".toList := isNumeral_repr 0
    cases b
    · exact hzero
    · exact hone
  | _ => cases h

theorem isRun_numericText {v : Json} (h : v.isNumberOrBool = true) :
    IsRun isTokenChar (numericText v).toList :=
  isRun_of_isNumeral (isNumeral_numericText h)

theorem derives_spanLeaf {field : String} {low high : Bound} {tokens : List RangeToken}
    (hf : IsWord field) (hlow : low.IsToken) (hhigh : high.IsToken)
    (htokens : [low.token "-", high.token ""] = tokens) :
    (spanLeaf field tokens).Derives (Clause.range field low high).text.toList := by
  rw [← htokens]
  exact .leaf (derives_range hf hlow hhigh)

theorem derives_numberLeaf {field : String} {v : Json} (hf : IsWord field)
    (hv : v.isNumberOrBool = true) :
    (numberLeaf field v).Derives (Clause.exactly field (numericText v)).text.toList := by
  have htoken : (Bound.inclusive (numericText v)).IsToken := isRun_numericText hv
  exact derives_spanLeaf hf htoken htoken rfl

theorem derives_tagLeaf {field : String} {patterns : List Pattern}
    {alternatives : List (List TagPiece)} (hf : IsWord field) (hne : patterns ≠ [])
    (hpieces : patterns.map Pattern.pieces = alternatives) :
    (tagLeaf field alternatives).Derives (Clause.tag field patterns).text.toList := by
  rw [← hpieces]
  exact .leaf (derives_tag hf hne)

theorem Pattern.pieces_exact (value : String) :
    Pattern.pieces ⟨value, false, false⟩ = literalPieces value := by
  simp [Pattern.pieces, wildcardIf]

/-- The choice between several numbers is a disjunction of their leaves, in order. -/
theorem derives_anyOf {field : String} {vs : List Json} (hf : IsWord field)
    (hlen : 2 ≤ vs.length) (hvs : ∀ v ∈ vs, v.isNumberOrBool = true) :
    (QueryTree.joined .any (vs.map (numberLeaf field))).Derives
      (Filter.anyOf (vs.map fun v => .exactly field (numericText v))).text.toList := by
  have htext : (Filter.anyOf (vs.map fun v => .exactly field (numericText v))).text.toList
      = '(' :: Junction.any.separator.intercalate
          (vs.map fun v => (Clause.exactly field (numericText v)).text.toList) ++ [')'] := by
    simp [Filter.text, Junction.separator, Function.comp_def]
  rw [htext]
  refine .joined (by simpa using hlen) ?_
  rw [List.forall₂_map_left_iff, List.forall₂_map_right_iff, List.forall₂_same]
  exact fun v hv => derives_numberLeaf hf (hvs v hv)

/-- On a tag field every test can be read back, whatever its constants are. -/
theorem Test.derives_of_filter?_tag {field : String} {t : Test} {f : Filter} (hword : IsWord field)
    (hf : t.filter? field .tag = some f) :
    ∃ tree, t.tree? field .tag = some tree ∧ tree.Derives f.text.toList := by
  cases t with
  | equals v | contains v =>
    cases hf
    exact ⟨_, rfl, derives_tagLeaf hword (by simp) (by simp [Pattern.pieces_exact])⟩
  | startsWith v | endsWith v =>
    cases hf
    exact ⟨_, rfl, derives_tagLeaf hword (by simp) (by simp [Pattern.pieces, wildcardIf])⟩
  | oneOf vs =>
    cases vs with
    | nil => cases hf
    | cons v vs =>
      cases hf
      exact ⟨_, rfl, derives_tagLeaf hword (by simp) (by simp [Pattern.pieces_exact])⟩
  | compares op v => cases op <;> cases hf
  | within longitude latitude radius unit => cases hf

/-- On a numeric field a test can be read back if its constants are numbers or truth values. -/
theorem Test.derives_of_filter?_numeric {field : String} {t : Test} {f : Filter}
    (hword : IsWord field) (hconstants : ∀ v ∈ t.constants, v.isNumberOrBool = true)
    (hf : t.filter? field .numeric = some f) :
    ∃ tree, t.tree? field .numeric = some tree ∧ tree.Derives f.text.toList := by
  cases t with
  | equals v =>
    cases hf
    exact ⟨_, rfl, derives_numberLeaf hword (hconstants v (by simp [Test.constants]))⟩
  | compares op v =>
    have hv := isRun_numericText (hconstants v (by simp [Test.constants]))
    have hex : (Bound.exclusive (numericText v)).IsToken := hv
    have hin : (Bound.inclusive (numericText v)).IsToken := hv
    cases op with
    | gt =>
      cases hf
      exact ⟨_, rfl, derives_spanLeaf hword hex trivial rfl⟩
    | lt =>
      cases hf
      exact ⟨_, rfl, derives_spanLeaf hword trivial hex rfl⟩
    | ge =>
      cases hf
      exact ⟨_, rfl, derives_spanLeaf hword hin trivial rfl⟩
    | le =>
      cases hf
      exact ⟨_, rfl, derives_spanLeaf hword trivial hin rfl⟩
    | _ => cases hf
  | oneOf vs =>
    match vs, hconstants, hf with
    | [v], hvs, hf =>
      cases hf
      exact ⟨_, rfl, derives_numberLeaf hword (hvs v (by simp [Test.constants]))⟩
    | v :: w :: vs, hvs, hf =>
      cases hf
      exact ⟨_, rfl, derives_anyOf hword (by simp) hvs⟩
  | _ => cases hf

/-- **A leaf keeps its meaning.**  Where a kind has a filter for a test that can be read back, the
text of the filter is a text of the test. -/
theorem Test.derives_of_filter? {s : Schema} {field : String} {kind : FieldKind} {t : Test}
    {f : Filter} (hk : s.Searches field kind) (hread : t.Readable s field)
    (hf : t.filter? field kind = some f) :
    ∃ tree, t.tree? field kind = some tree ∧ tree.Derives f.text.toList := by
  cases kind with
  | tag => exact derives_of_filter?_tag hread.word hf
  | numeric => exact derives_of_filter?_numeric hread.word (hread.numeric hk) hf
  | text =>
    obtain ⟨v, rfl⟩ := hread.text hk
    cases hf
    exact ⟨_, rfl, .leaf (derives_phrase v.plain hread.word)⟩
  | geo =>
    cases t with
    | within longitude latitude radius unit =>
      cases hf
      exact ⟨_, rfl, .leaf (derives_geo ⟨field, longitude, latitude, radius, unit⟩ hread.word)⟩
    | compares op v => cases op <;> cases hf
    | oneOf vs => cases vs <;> cases hf
    | _ => cases hf
  | indexed => exact absurd rfl (hk.ne_indexed)

/-! ## 5. Predicates

The compiler is opened once, in `Filter.build_renders`: its filter is put together from the condition by the
rules of `Renders`.  That the text of such a filter keeps the condition is then an induction on the rules, in
which the compiler does not occur. -/

/-- What a test says under a schema is what it says on the kind of its field. -/
theorem Condition.tree?_test {s : Schema} {field : String} {kind : FieldKind} {t : Test}
    {tree : QueryTree} (hk : s.Searches field kind) (ht : t.tree? field kind = some tree) :
    (Condition.test field t).tree? s = some tree := by
  obtain ⟨spec, hspec, -, rfl⟩ := hk
  rw [Condition.tree?, hspec]
  exact ht

/-- A position adds parentheses at most. -/
theorem derives_place {tree : QueryTree} {f : Filter} (pos : Filter.Position)
    (h : tree.Derives f.text.toList) : tree.Derives (pos.place f).text.toList := by
  cases pos with
  | operand => exact h
  | alone =>
    have htext : (Filter.group f).text.toList = '(' :: f.text.toList ++ [')'] := by
      simp [Filter.text]
    rw [Filter.Position.place, htext]
    exact .group h

theorem derives_negated {tree : QueryTree} {f : Filter} (h : tree.Derives f.text.toList) :
    tree.negation.Derives (Filter.negated f).text.toList := by
  have htext : (Filter.negated f).text.toList = '-' :: f.text.toList := by
    simp [Filter.text]
  rw [htext]
  exact .negation h

/-- The filter that a junction makes of two. -/
def Junction.join : Junction → Filter → Filter → Filter
  | all => .both
  | any => .either

theorem derives_join (op : Junction) {tl tr : QueryTree} {l r : Filter}
    (hl : tl.Derives l.text.toList) (hr : tr.Derives r.text.toList) :
    (QueryTree.joined op [tl, tr]).Derives (op.join l r).text.toList := by
  have htext : (op.join l r).text.toList
      = '(' :: op.separator.intercalate [l.text.toList, r.text.toList] ++ [')'] := by
    cases op <;> simp [Filter.text, Junction.join, Junction.separator]
  rw [htext]
  exact .joined (by simp) (.cons hl (.cons hr .nil))

/-- A filter that says what a condition says, as far as the condition can be read back. -/
def Filter.Keeps (s : Schema) (f : Filter) (c : Condition) : Prop :=
  c.Readable s → ∃ tree, c.tree? s = some tree ∧ tree.Derives f.text.toList

theorem Filter.keeps_place {s : Schema} {f : Filter} {c : Condition} (pos : Position)
    (h : f.Keeps s c) : (pos.place f).Keeps s c := by
  intro hread
  obtain ⟨tree, htree, hderives⟩ := h hread
  exact ⟨tree, htree, derives_place pos hderives⟩

theorem Filter.keeps_negated {s : Schema} {f : Filter} {c : Condition} (h : f.Keeps s c) :
    f.negated.Keeps s (.not c) := by
  intro hread
  obtain ⟨tree, htree, hderives⟩ := h hread
  exact ⟨tree.negation, by rw [Condition.tree?, htree]; rfl, derives_negated hderives⟩

/-- The condition that a junction makes of two. -/
def Junction.condition : Junction → Condition → Condition → Condition
  | all => .both
  | any => .either

theorem Filter.keeps_join {s : Schema} (op : Junction) {l r : Filter} {cl cr : Condition}
    (hl : l.Keeps s cl) (hr : r.Keeps s cr) : (op.join l r).Keeps s (op.condition cl cr) := by
  intro hread
  have hreads : cl.Readable s ∧ cr.Readable s := by
    cases op <;> exact hread
  obtain ⟨tl, htl, hderivesl⟩ := hl hreads.1
  obtain ⟨tr, htr, hderivesr⟩ := hr hreads.2
  refine ⟨.joined op [tl, tr], ?_, derives_join op hderivesl hderivesr⟩
  cases op <;> simp [Junction.condition, Condition.tree?, htl, htr]

theorem Filter.keeps_test {s : Schema} {field : String} {kind : FieldKind} {t : Test} {f : Filter}
    (hk : s.Searches field kind) (hf : t.filter? field kind = some f) :
    f.Keeps s (.test field t) := by
  intro hread
  obtain ⟨tree, htree, hderives⟩ := Test.derives_of_filter? hk hread hf
  exact ⟨tree, Condition.tree?_test hk htree, hderives⟩

/-- **How a filter is put together** for a condition: each test is a filter of the table on a field
that may be searched, and a comparison may stand in parentheses. -/
inductive Filter.Renders (s : Schema) : Filter → Condition → Prop
  | test {field : String} {kind : FieldKind} {t : Test} {f : Filter} :
      s.Searches field kind → t.filter? field kind = some f → Renders s f (.test field t)
  | group {f : Filter} {c : Condition} : Renders s f c → Renders s f.group c
  | negated {f : Filter} {c : Condition} : Renders s f c → Renders s f.negated (.not c)
  | both {l r : Filter} {cl cr : Condition} :
      Renders s l cl → Renders s r cr → Renders s (l.both r) (.both cl cr)
  | either {l r : Filter} {cl cr : Condition} :
      Renders s l cl → Renders s r cr → Renders s (l.either r) (.either cl cr)

theorem Filter.Renders.place {s : Schema} {f : Filter} {c : Condition} (pos : Position)
    (h : f.Renders s c) : (pos.place f).Renders s c := by
  cases pos with
  | alone => exact .group h
  | operand => exact h

/-- A comparison says one test or its negation, and its filter renders it. -/
theorem Filter.comparison_renders {s : Schema} {op : BinaryOp} {l r : Expr} {f : Filter}
    (h : comparison s op l r = .ok f) : ∃ c, (Expr.binary op l r).Says c ∧ f.Renders s c := by
  obtain ⟨field, v, kind, negative, test, f₀, hl, hr, hk, htest, hf, rfl⟩ :=
    comparison_eq_ok.mp h
  have htest' : f₀.Renders s (.test field test) := .test hk hf
  cases htest with
  | eq => exact ⟨_, .equal hl hr, htest'⟩
  | ne => exact ⟨_, .unequal hl hr, .negated htest'⟩
  | range hop => exact ⟨_, .range hop hl hr, htest'⟩

/-- **A filter renders what its expression says.**  By recursion on the expression: a connective keeps
its operands in their order, a negation its operand, and a position adds parentheses at most. -/
theorem Filter.build_renders {s : Schema} : ∀ {pos : Position} {e : Expr} {f : Filter},
    build s pos e = .ok f → ∃ c, e.Says c ∧ f.Renders s c
  | pos, .binary op l r, f, h => by
    by_cases hop : op.isLogical = true
    · obtain ⟨join, fl, fr, hjoin, hfl, hfr, rfl⟩ := (build_logical_eq_ok hop).mp h
      obtain ⟨cl, hcl, hrl⟩ := build_renders hfl
      obtain ⟨cr, hcr, hrr⟩ := build_renders hfr
      cases op with
      | and =>
        cases hjoin
        exact ⟨_, .both hcl hcr, .both hrl hrr⟩
      | or =>
        cases hjoin
        exact ⟨_, .either hcl hcr, .either hrl hrr⟩
      | _ => cases hop
    · obtain ⟨f₀, hf₀, rfl⟩ := (build_comparison_eq_ok hop).mp h
      obtain ⟨c, hc, hrenders⟩ := comparison_renders hf₀
      exact ⟨c, hc, hrenders.place pos⟩
  | pos, .unary .not e, f, h => by
    obtain ⟨f₀, hf₀, rfl⟩ := Compiled.map_eq_ok.mp h
    obtain ⟨c, hc, hrenders⟩ := build_renders hf₀
    exact ⟨_, .not hc, .negated hrenders⟩
  | pos, .unary .convert e, f, h => by
    obtain ⟨c, hc, hrenders⟩ := build_renders (e := e) h
    exact ⟨c, .convert hc, hrenders⟩
  | pos, .lambda e, f, h => by
    obtain ⟨c, hc, hrenders⟩ := build_renders (e := e) h
    exact ⟨c, .lambda hc, hrenders⟩
  | pos, .member name, f, h => by
    obtain ⟨f₀, hf₀, rfl⟩ := Compiled.map_eq_ok.mp h
    obtain ⟨c, hc, hrenders⟩ := comparison_renders hf₀
    -- the comparison with the constant that a field on its own stands for
    have hc' : (Expr.binary .eq (.member name) (.constant (.bool true))).Says
        (.test name (.equals (.bool true))) := .equal (.member name) (.constant _)
    cases hc.unique hc'
    exact ⟨_, .member name, hrenders.place pos⟩
  | pos, .call name args, f, h => by
    obtain ⟨field, test, kind, hcall, hk, hf⟩ := ofCall_eq_ok.mp h
    exact ⟨_, .call hcall, .test hk hf⟩
  | pos, .unary .negate _, f, h | pos, .constant _, f, h | pos, .record _, f, h => by cases h
termination_by structural _ e => e

theorem Filter.Renders.keeps {s : Schema} {f : Filter} {c : Condition} (h : f.Renders s c) :
    f.Keeps s c := by
  induction h with
  | test hk hf => exact keeps_test hk hf
  | group _ ih => exact keeps_place .alone ih
  | negated _ ih => exact keeps_negated ih
  | both _ _ ihl ihr => exact keeps_join .all ihl ihr
  | either _ _ ihl ihr => exact keeps_join .any ihl ihr

theorem Filter.build_keeps {s : Schema} {pos : Position} {e : Expr} {f : Filter}
    (h : build s pos e = .ok f) : ∃ c, e.Says c ∧ f.Keeps s c := by
  obtain ⟨c, hc, hrenders⟩ := build_renders h
  exact ⟨c, hc, hrenders.keeps⟩

/-- **The text of a predicate keeps its meaning.**  `parseQuery` is the parser of the grammar, and
whenever a predicate compiles and can be read back, parsing all of its text gives the boolean tree of
the expression, which is the only one it has. -/
theorem parseQuery_filterText :
    (∀ text tree, parseQuery text = some tree ↔ tree.Derives text.toList) ∧
    ∀ (s : Schema) (e : Expr) (t : String), filterText s e = .ok t →
      (∀ c, e.Says c → c.Readable s) →
      ∃ c tree, (∀ c', e.Says c' ↔ c' = c) ∧ c.tree? s = some tree ∧
        parseQuery t = some tree := by
  refine ⟨fun text tree => parseQuery_eq_some_iff, fun s e t h hread => ?_⟩
  obtain ⟨f, hf, rfl⟩ := Compiled.map_eq_ok.mp h
  obtain ⟨c, hc, hkeeps⟩ := Filter.build_keeps hf
  obtain ⟨tree, htree, hderives⟩ := hkeeps (hread c hc)
  refine ⟨c, tree, fun c' => ⟨fun hc' => hc'.unique hc, ?_⟩, htree,
    parseQuery_eq_some_iff.mpr hderives⟩
  rintro rfl
  exact hc

instance (s : Schema) (field : String) (kind : FieldKind) : Decidable (s.Searches field kind) :=
  decidable_of_iff _ Schema.searchKind_eq_ok

/-- A schema with a field of each kind. -/
def sampleSchema : Schema :=
  ((((Schema.declare (some "people")).withField "name" .tag).withField "age" .numeric).withField
    "bio" .text).withField "home" .geo

/-- A predicate with both connectives, both negations and literals full of delimiters. -/
def samplePerson : Expr :=
  .binary .and (.binary .ne (.member "name") (.constant (.str "a|b)\x7d *")))
    (.unary .not (.binary .or (.binary .eq (.member "bio") (.constant (.str "say \"hi\"")))
      (.call "Contains" [.constant (.arr [.num (.whole 21), .bool true]), .member "age"])))

/-- A radius whose numbers are of all three kinds: `-3`, `12.5` and `5`. -/
def samplePlace : Expr :=
  .call "GeoFilter" [.member "home", .constant (.num (.negSucc ⟨2, by decide⟩)),
    .constant (.num (.float ⟨false, 0x19000000000000, 1025, by decide⟩)),
    .constant (.num (.whole 5)), .constant (.str "Kilometers")]

/-- The text that the two compile to, one after the other. -/
def sampleText : String :=
  "((-@name:\x7ba\\|b\\)\\\x7d\\ \\*\x7d -(@bio:\"say \\\"hi\\\"\" | (@age:[21 21] | @age:[1 1]))) " ++
    "@home:[-3 12.5 5 km])"

theorem parseQuery_filterText_sample :
    filterText sampleSchema (.binary .and samplePerson samplePlace) = .ok sampleText ∧
    (∀ c, (Expr.binary .and samplePerson samplePlace).Says c → c.Readable sampleSchema) ∧
    ∃ c tree, (∀ c', (Expr.binary .and samplePerson samplePlace).Says c' ↔ c' = c) ∧
      c.tree? sampleSchema = some tree ∧ parseQuery sampleText = some tree := by
  -- the digits of the coordinates are computed, which is work for the kernel
  have hcompiles : filterText sampleSchema (.binary .and samplePerson samplePlace)
      = .ok sampleText := by decide +kernel
  have hperson : samplePerson.Says
      (.both (.not (.test "name" (.equals (.str "a|b)\x7d *"))))
        (.not (.either (.test "bio" (.equals (.str "say \"hi\"")))
          (.test "age" (.oneOf [.num (.whole 21), .bool true]))))) :=
    .both (.unequal (.member _) (.constant _))
      (.not (.either (.equal (.member _) (.constant _))
        (.call (.oneOf (.constant _) (.member _)))))
  have hplace : samplePlace.Says (.test "home" (.within (Number.negSucc ⟨2, by decide⟩).toBinary64
      ⟨false, 0x19000000000000, 1025, by decide⟩ (Number.whole 5).toBinary64 .kilometers)) :=
    .call (.within (.ref (.member _)) (.constant _) (.constant _) (.constant _) (.constant _)
      (by decide))
  have hread : ∀ c, (Expr.binary .and samplePerson samplePlace).Says c →
      c.Readable sampleSchema := by
    intro c hc
    cases hc.unique (.both hperson hplace)
    refine ⟨⟨⟨by decide, fun h => absurd h (by decide), fun h => absurd h (by decide)⟩,
      ⟨by decide, fun h => absurd h (by decide), fun _ => ⟨_, rfl⟩⟩,
      ⟨by decide, fun _ v hv => ?_, fun h => absurd h (by decide)⟩⟩,
      ⟨by decide, fun h => absurd h (by decide), fun h => absurd h (by decide)⟩⟩
    simp only [Test.constants, List.mem_cons, List.not_mem_nil, or_false] at hv
    rcases hv with rfl | rfl <;> rfl
  exact ⟨hcompiles, hread, parseQuery_filterText.2 _ _ _ hcompiles hread⟩

end IndexQuery
