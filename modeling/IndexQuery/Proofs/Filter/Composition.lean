/-
# The text of a predicate from the texts of its parts

A predicate compiles to a filter under a position, and a comparison is the one thing that the position
changes: alone it stands in parentheses, as an operand it does not.  So the text of a conjunction is not
made of the texts that its operands have when they stand alone.

This module says what it is made of.  A comparison or a field, below any lambdas and conversions
(`Expr.isEnclosed`), loses its one pair of parentheses as an operand; everything else is written as it
is (`Filter.map_text_build_operand`).  Negations are signs in front of a text that stands alone, and
lambdas and conversions leave no trace (`filterText_wrapped`).  An error is that of the left operand,
if it has one, and else that of the right.
-/
import IndexQuery.Proofs.Filter.Meaning

namespace IndexQuery

/-! ## 1. The text of an operand -/

/-- A comparison or a field below any lambdas and conversions: what has parentheses of its own when it
stands alone. -/
def Expr.isEnclosed : Expr → Bool
  | binary op _ _ => !op.isLogical
  | member _ => true
  | lambda body => body.isEnclosed
  | unary .convert operand => operand.isEnclosed
  | _ => false

/-- A text without its first and its last character. -/
def insideText (t : String) : String :=
  String.ofList t.toList.tail.dropLast

/-- The text as an operand of a predicate that has the text `t` when it stands alone. -/
def Expr.operandText (e : Expr) (t : String) : String :=
  if e.isEnclosed then insideText t else t

@[simp] theorem insideText_parentheses (u : String) : insideText ("(" ++ u ++ ")") = u := by
  have hlist : ("(" ++ u ++ ")").toList = '(' :: (u.toList ++ [')']) := by simp
  rw [insideText, hlist, List.tail_cons, List.dropLast_concat, String.ofList_toList]

/-! ## 2. Where a position matters -/

namespace Filter

/-- A filter of a comparison: a clause, or its negation. -/
def IsComparison (f : Filter) : Prop :=
  ∃ c, f = .clause c ∨ f = .negated (.clause c)

theorem isComparison_of_comparison {s : Schema} {op : BinaryOp} {l r : Expr} {f : Filter}
    (h : comparison s op l r = .ok f) : f.IsComparison := by
  obtain ⟨field, v, kind, negative, test, f₀, -, -, -, htest, hf, rfl⟩ := comparison_eq_ok.mp h
  have hclause : ∃ c, f₀ = .clause c := by
    rcases htest with _ | _ | hop
    · exact Test.filter?_equals_eq_clause hf
    · exact Test.filter?_equals_eq_clause hf
    · cases op <;> cases hop <;> cases kind <;> cases hf <;> exact ⟨_, rfl⟩
  obtain ⟨c, rfl⟩ := hclause
  refine ⟨c, ?_⟩
  cases negative
  · exact .inl rfl
  · exact .inr rfl

/-- Inside its parentheses a comparison does not begin with another one. -/
theorem IsComparison.head?_text {f : Filter} (h : f.IsComparison) : f.text.toList.head? ≠ some '(' := by
  obtain ⟨c, rfl | rfl⟩ := h
  · obtain ⟨rest, hrest⟩ := c.toList_text
    simp [text, hrest]
  · simp [text]

/-- What is compiled to comparisons only, and is placed by its position alone. -/
def PlacedAs (s : Schema) (e : Expr) (x : Compiled Filter) : Prop :=
  (∀ pos, build s pos e = x.map pos.place) ∧ ∀ f, x = .ok f → f.IsComparison

theorem exists_placedAs_comparison (s : Schema) {op : BinaryOp} (hop : op.isLogical = false)
    (l r : Expr) : ∃ x, PlacedAs s (.binary op l r) x := by
  by_cases hguard : (l.isBinary || r.isBinary) = true
  · -- an operator that joins nothing, between operands that are no field and no constant
    refine ⟨.error (.unknownSeparator op), fun pos => ?_, fun f h => by cases h⟩
    rw [build, if_pos (by simp [hguard])]
    cases op with
    | and | or => cases hop
    | _ => rfl
  · refine ⟨comparison s op l r, fun pos => ?_, fun f h => isComparison_of_comparison h⟩
    rw [build, if_neg (by simpa [hop] using hguard)]

/-- **What is enclosed is placed by its position alone.** -/
theorem exists_placedAs (s : Schema) : ∀ {e : Expr}, e.isEnclosed = true → ∃ x, PlacedAs s e x
  | .binary op l r, h => exists_placedAs_comparison s (by simpa [Expr.isEnclosed] using h) l r
  | .member name, _ =>
    ⟨truth s name, fun _ => rfl, fun _ hf => isComparison_of_comparison hf⟩
  | .lambda body, h => exists_placedAs s (e := body) h
  | .unary .convert operand, h => exists_placedAs s (e := operand) h

/-- **Everything else does not look at its position.** -/
theorem build_eq_of_not_isEnclosed (s : Schema) (pos pos' : Position) :
    ∀ {e : Expr}, e.isEnclosed = false → build s pos e = build s pos' e
  | .binary op l r, h => by
    have hop : op.isLogical = true := by simpa [Expr.isEnclosed] using h
    have hguard : (l.isBinary || r.isBinary || op.isLogical) = true := by simp [hop]
    rw [build, build, if_pos hguard, if_pos hguard]
  | .lambda body, h => build_eq_of_not_isEnclosed s pos pos' (e := body) h
  | .unary .convert operand, h => build_eq_of_not_isEnclosed s pos pos' (e := operand) h
  | .unary .not _, _ | .unary .negate _, _ | .call .., _ | .constant _, _ | .record _, _ => rfl

/-- **What a predicate reads as an operand.** -/
theorem map_text_build_operand (s : Schema) (e : Expr) :
    (build s .operand e).map text = (filterText s e).map e.operandText := by
  rw [filterText, ofExpr]
  by_cases h : e.isEnclosed = true
  · obtain ⟨x, hx, -⟩ := exists_placedAs s h
    have htext : e.operandText = insideText := by
      funext t
      rw [Expr.operandText, if_pos h]
    rw [hx, hx, htext]
    cases x with
    | error err => rfl
    | ok f =>
      show Except.ok f.text = Except.ok (insideText ("(" ++ f.text ++ ")"))
      rw [insideText_parentheses]
  · have htext : e.operandText = id := by
      funext t
      rw [Expr.operandText, if_neg h, id]
    rw [build_eq_of_not_isEnclosed s .operand .alone (by simpa using h), htext, Except.map_id, id]

end Filter

/-- **The one pair of parentheses.**  What is enclosed has a pair around its text when it stands alone,
and as an operand it is what stands between them. -/
theorem enclosed_filterText {s : Schema} {e : Expr} (h : e.isEnclosed = true) {t : String}
    (ht : filterText s e = .ok t) :
    ∃ u, t = "(" ++ u ++ ")" ∧ u.toList.head? ≠ some '(' ∧ e.operandText t = u := by
  obtain ⟨x, hx, hcomparison⟩ := Filter.exists_placedAs s h
  rw [filterText, Filter.ofExpr, hx] at ht
  obtain ⟨_, hplaced, rfl⟩ := Compiled.map_eq_ok.mp ht
  obtain ⟨f, hf, rfl⟩ := Compiled.map_eq_ok.mp hplaced
  refine ⟨f.text, rfl, (hcomparison f hf).head?_text, ?_⟩
  rw [Expr.operandText, if_pos h]
  exact insideText_parentheses f.text

/-! ## 3. Connectives -/

/-- **How an operator joins two predicates**: the texts of both as operands around a separator, or the
error of the first one that fails. -/
structure JoinsBy (s : Schema) (op : BinaryOp) (separator : String) (l r : Expr) : Prop where
  text : ∀ tl tr, filterText s l = .ok tl → filterText s r = .ok tr →
    filterText s (.binary op l r)
      = .ok ("(" ++ l.operandText tl ++ separator ++ r.operandText tr ++ ")")
  left : ∀ err, filterText s l = .error err → filterText s (.binary op l r) = .error err
  right : ∀ tl err, filterText s l = .ok tl → filterText s r = .error err →
    filterText s (.binary op l r) = .error err

/-- The filter of a connective is made of the filters of its operands, and reads as they do. -/
theorem filterText_connective {s : Schema} {op : BinaryOp} {join : Filter → Filter → Filter}
    {separator : String} (hop : op.isLogical = true) (hjoin : Filter.connective op = .ok join)
    (htext : ∀ f g, (join f g).text = "(" ++ f.text ++ separator ++ g.text ++ ")") (l r : Expr) :
    filterText s (.binary op l r) = (do
      let tl ← (filterText s l).map l.operandText
      let tr ← (filterText s r).map r.operandText
      return "(" ++ tl ++ separator ++ tr ++ ")") := by
  rw [← Filter.map_text_build_operand, ← Filter.map_text_build_operand, filterText, Filter.ofExpr,
    Filter.build, if_pos (by simp [hop]), hjoin]
  cases Filter.build s .operand l with
  | error err => rfl
  | ok f =>
    cases Filter.build s .operand r with
    | error err => rfl
    | ok g => exact congrArg Except.ok (htext f g)

theorem joinsBy_connective {s : Schema} {op : BinaryOp} {join : Filter → Filter → Filter}
    {separator : String} (hop : op.isLogical = true) (hjoin : Filter.connective op = .ok join)
    (htext : ∀ f g, (join f g).text = "(" ++ f.text ++ separator ++ g.text ++ ")") (l r : Expr) :
    JoinsBy s op separator l r where
  text tl tr hl hr := by
    rw [filterText_connective hop hjoin htext, hl, hr]
    rfl
  left err hl := by
    rw [filterText_connective hop hjoin htext, hl]
    rfl
  right tl err hl hr := by
    rw [filterText_connective hop hjoin htext, hl, hr]
    rfl

/-! ## 4. Wrappers -/

/-- A node that has one predicate below it. -/
inductive Wrapper where
  | not | convert | lambda
  deriving DecidableEq

/-- The node around a predicate. -/
def Wrapper.around : Wrapper → Expr → Expr
  | not, e => .unary .not e
  | convert, e => .unary .convert e
  | lambda, e => .lambda e

/-- A stack of nodes around a predicate, the outermost first. -/
def Expr.wrapped (e : Expr) (stack : List Wrapper) : Expr :=
  stack.foldr Wrapper.around e

/-- As many minus signs. -/
def minusSigns (k : Nat) : String :=
  String.ofList (List.replicate k '-')

theorem minusSigns_succ (k : Nat) : minusSigns (k + 1) = "-" ++ minusSigns k := by
  apply String.toList_inj.mp
  simp [minusSigns, List.replicate_succ]

theorem filterText_not (s : Schema) (e : Expr) :
    filterText s (.unary .not e) = (filterText s e).map ("-" ++ ·) := by
  simp only [filterText, Filter.ofExpr, Filter.build]
  cases Filter.build s .alone e <;> rfl

/-- **A stack reads as one sign for each of its negations**, in front of the text as it stands alone. -/
theorem filterText_wrapped (s : Schema) (stack : List Wrapper) (e : Expr) :
    filterText s (e.wrapped stack)
      = (filterText s e).map (minusSigns (stack.count .not) ++ ·) := by
  induction stack with
  | nil =>
    have hid : (fun t : String => minusSigns 0 ++ t) = id := by
      funext t
      simp [minusSigns]
    rw [List.count_nil, hid, Except.map_id]
    rfl
  | cons w stack ih =>
    cases w with
    | not =>
      show filterText s (.unary .not (e.wrapped stack)) = _
      rw [filterText_not, ih, List.count_cons_self, minusSigns_succ]
      cases filterText s e with
      | error err => rfl
      | ok t => exact congrArg Except.ok (String.append_assoc ..).symm
    | convert | lambda => exact ih

/-- Below a negation nothing is enclosed. -/
theorem isEnclosed_wrapped {stack : List Wrapper} (h : 1 ≤ stack.count .not) (e : Expr) :
    (e.wrapped stack).isEnclosed = false := by
  induction stack with
  | nil => simp at h
  | cons w stack ih =>
    cases w with
    | not => rfl
    | convert | lambda => exact ih h

/-- **How a stack wraps a predicate.** -/
structure SignsBy (s : Schema) (stack : List Wrapper) (e : Expr) : Prop where
  text : ∀ t, filterText s e = .ok t →
    filterText s (e.wrapped stack) = .ok (minusSigns (stack.count .not) ++ t)
  operand : 1 ≤ stack.count .not → ∀ t, (e.wrapped stack).operandText t = t
  error : ∀ err, filterText s (e.wrapped stack) = .error err ↔ filterText s e = .error err

theorem signsBy_wrapped (s : Schema) (stack : List Wrapper) (e : Expr) : SignsBy s stack e where
  text t ht := by
    rw [filterText_wrapped, ht]
    rfl
  operand hk t := by
    rw [Expr.operandText, isEnclosed_wrapped hk]
    rfl
  error err := by
    rw [filterText_wrapped]
    cases filterText s e <;> simp [Except.map]

/-! ## 5. Composition -/

/-- **Predicates compose by their texts.**  What is enclosed loses one pair of parentheses as an operand,
`and` and `or` join the texts of their operands and report the first error, and a stack of negations,
conversions and lambdas adds a sign for each negation and nothing else. -/
theorem filterText_composes (s : Schema) :
    (∀ e t, e.isEnclosed = true → filterText s e = .ok t →
      ∃ u, t = "(" ++ u ++ ")" ∧ u.toList.head? ≠ some '(' ∧ e.operandText t = u) ∧
    (∀ l r, JoinsBy s .and " " l r ∧ JoinsBy s .or " | " l r) ∧
    ∀ stack e, SignsBy s stack e := by
  refine ⟨fun e t h ht => enclosed_filterText h ht, fun l r => ⟨?_, ?_⟩, signsBy_wrapped s⟩
  · exact joinsBy_connective rfl rfl (fun _ _ => rfl) l r
  · exact joinsBy_connective rfl rfl (fun _ _ => rfl) l r

/-- A comparison in a conversion and a lambda. -/
def wrappedRange : Expr :=
  .unary .convert (.lambda (.binary .gt (.member "age") (.constant (.num (.whole 21)))))

/-- A field below two negations with a lambda between them. -/
def twiceNegated : Expr :=
  (Expr.member "name").wrapped [.convert, .not, .lambda, .not]

theorem filterText_composes_wrappedRange :
    wrappedRange.isEnclosed = true ∧
    filterText sampleSchema wrappedRange = .ok "(@age:[(21 inf])" ∧
    (∃ u, "(@age:[(21 inf])" = "(" ++ u ++ ")" ∧ u.toList.head? ≠ some '(' ∧
      wrappedRange.operandText "(@age:[(21 inf])" = u) ∧
    filterText sampleSchema twiceNegated = .ok "--(@name:\x7btrue\x7d)" ∧
    filterText sampleSchema (.binary .and wrappedRange twiceNegated)
      = .ok "(@age:[(21 inf] --(@name:\x7btrue\x7d))" ∧
    filterText sampleSchema (.binary .or twiceNegated (.unary .not (.member "secret")))
      = .error (.notSearchable "secret") := by
  have hrange : filterText sampleSchema wrappedRange = .ok "(@age:[(21 inf])" := by rfl
  have hname : filterText sampleSchema (.member "name") = .ok "(@name:\x7btrue\x7d)" := by rfl
  have hsecret : filterText sampleSchema (.member "secret") = .error (.notSearchable "secret") := by rfl
  obtain ⟨hinside, hjoin, hsigns⟩ := filterText_composes sampleSchema
  have hnegated : filterText sampleSchema twiceNegated = .ok "--(@name:\x7btrue\x7d)" :=
    (hsigns [.convert, .not, .lambda, .not] (.member "name")).text _ hname
  have hrefused := ((hsigns [.not] (.member "secret")).error _).mpr hsecret
  have hand := (hjoin wrappedRange twiceNegated).1.text _ _ hrange hnegated
  have hor := (hjoin twiceNegated (.unary .not (.member "secret"))).2.right _ _ hnegated hrefused
  exact ⟨rfl, hrange, hinside wrappedRange _ rfl hrange, hnegated, hand, hor⟩

end IndexQuery
