/-
# The language of value expressions

The grammar of the engine's value expressions, and a parser of it.

    value ::= '@' name | number | string | '!' value | '-' value
            | '(' value ' ' operator ' ' value ')' | function '(' (value (',' value)*)? ')'
    operator ::= '>' | '<' | '>=' | '<=' | '==' | '!=' | '&&' | '||'
            | '+' | '-' | '*' | '/' | '%' | '^'

A number is a JSON numeral without a sign, a string stands in single quotes with backslash escapes, and
a function is a name that does not begin with a digit.  The grammar is the engine's: it says nothing of
how the compiler writes a value, and has texts that the compiler never writes.

`DerivesValue e u` is the grammar as a relation between expressions and texts, and `parseValue` returns
an expression exactly if the grammar derives the text from it (`parseValue_eq_some_iff`).

The first character decides which rule applies.  Names and numbers do not end by themselves, so a value
is read up to a character that neither can go on with (`IsStop`): a blank, a comma, a closing parenthesis
or the end.  Values nest, so their reader counts down `fuel`; the length of a text is always enough.
-/
import IndexQuery.Proofs.Number.Reading
import IndexQuery.Proofs.Query.Grammar
import IndexQuery.Proofs.Reader
import IndexQuery.Term.Basic

namespace IndexQuery

/-! ## 1. The grammar

A relation rather than a function, since one expression has many texts: any character of a string may be
escaped, and a number has as many numerals as it has notations. -/

/-- A name that can be called. -/
def IsFunctionName (name : String) : Prop :=
  IsWord name ∧ ∀ c ∈ name.toList.head?, c.isDigit = false

instance (name : String) : Decidable (IsFunctionName name) :=
  decidable_of_iff (IsWord name ∧ name.toList.head?.all (! ·.isDigit) = true) (by
    cases h : name.toList.head? <;> simp [IsFunctionName, h])

/-- The texts of one character of a string. -/
inductive DerivesStringChar : Char → List Char → Prop
  | plain {c : Char} : isQuoteSpecial '\'' c = false → DerivesStringChar c [c]
  | escaped (c : Char) : DerivesStringChar c ['\\', c]

/-- The signs in front of a value. -/
inductive IsSign : Char → UnaryOp → Prop
  | not : IsSign '!' .not
  | negate : IsSign '-' .negate

/-- The operators, each with its text. -/
def operatorTexts : List (BinaryOp × String) :=
  [(.gt, ">"), (.lt, "<"), (.ge, ">="), (.le, "<="), (.eq, "=="), (.ne, "!="), (.and, "&&"),
   (.or, "||"), (.add, "+"), (.sub, "-"), (.mul, "*"), (.div, "/"), (.mod, "%"), (.pow, "^")]

/-- **The grammar of value expressions.**  A negative number has no rule: it is the sign and the number
without it, as in `-(1 + 2)`. -/
inductive DerivesValue : Expr → List Char → Prop
  | member {name : String} : IsWord name → DerivesValue (.member name) ('@' :: name.toList)
  | number {n : Number} {u : List Char} :
      IsNumeral u → numberOf? u = some n → DerivesValue (.constant (.num n)) u
  | string {s : String} {us : List (List Char)} :
      List.Forall₂ DerivesStringChar s.toList us →
      DerivesValue (.constant (.str s)) ('\'' :: us.flatten ++ ['\''])
  | signed {c : Char} {op : UnaryOp} {e : Expr} {u : List Char} :
      IsSign c op → DerivesValue e u → DerivesValue (.unary op e) (c :: u)
  | binary {op : BinaryOp} {text : String} {l r : Expr} {u v : List Char} :
      (op, text) ∈ operatorTexts → DerivesValue l u → DerivesValue r v →
      DerivesValue (.binary op l r) ('(' :: u ++ ' ' :: text.toList ++ ' ' :: v ++ [')'])
  | call {name : String} {args : List Expr} {us : List (List Char)} :
      IsFunctionName name → List.Forall₂ DerivesValue args us →
      DerivesValue (.call name args) (name.toList ++ '(' :: [','].intercalate us ++ [')'])

/-! ## 2. Readers of parts

The parts that do not nest.  Each has a reader and two lemmas about it: `_complete`, every text of the part
is read, whatever stands behind it; and `_sound`, what is read is a text of the part, and the rest is what
stands behind it.  Readers that run to the end of a class of characters need to know that the rest does not
go on with that class.

### Strings -/

/-- The characters of a string up to the closing quote. -/
def readString : List Char → Option (List Char × List Char)
  | '\'' :: rest => some ([], rest)
  | '\\' :: c :: rest => (readString rest).map (Prod.map (List.cons c) id)
  | c :: rest =>
    if isQuoteSpecial '\'' c then none else (readString rest).map (Prod.map (List.cons c) id)
  | [] => none

/-- The operator that is written so. -/
def operatorOf? (u : List Char) : Option BinaryOp :=
  (operatorTexts.find? fun entry => entry.2.toList == u).map Prod.fst

/-- An operator between two blanks. -/
def readOperator : List Char → Option (BinaryOp × List Char)
  | ' ' :: s =>
    match s.dropWhile (· != ' ') with
    | ' ' :: rest => (operatorOf? (s.takeWhile (· != ' '))).map (·, rest)
    | _ => none
  | _ => none

/-- The name of a field. -/
def readMember (s : List Char) : Option (Expr × List Char) :=
  if s.takeWhile isWordChar = [] then none
  else some (.member (String.ofList (s.takeWhile isWordChar)), s.dropWhile isWordChar)

/-- The number that the longest run of characters of numbers is. -/
def readNumber (s : List Char) : Option (Expr × List Char) :=
  (numberOf? (s.takeWhile isNumeralChar)).map fun n =>
    (.constant (.num n), s.dropWhile isNumeralChar)

/-- The name of a function, with the parenthesis behind it. -/
def readFunction (s : List Char) : Option (String × List Char) :=
  match s.dropWhile isWordChar with
  | '(' :: rest =>
    if IsFunctionName (String.ofList (s.takeWhile isWordChar)) then
      some (String.ofList (s.takeWhile isWordChar), rest)
    else none
  | _ => none

mutual

/-- The value at the beginning of a text. -/
def readValue : Nat → List Char → Option (Expr × List Char)
  | _ + 1, '@' :: s => readMember s
  | _ + 1, '\'' :: s =>
    (readString s).map (Prod.map (fun cs => .constant (.str (String.ofList cs))) id)
  | fuel + 1, '!' :: s => (readValue fuel s).map (Prod.map (.unary .not) id)
  | fuel + 1, '-' :: s => (readValue fuel s).map (Prod.map (.unary .negate) id)
  | fuel + 1, '(' :: s => do
    let (l, s) ← readValue fuel s
    let (op, s) ← readOperator s
    let (r, s) ← readValue fuel s
    match s with
    | ')' :: rest => some (.binary op l r, rest)
    | _ => none
  | fuel + 1, c :: s =>
    if c.isDigit then readNumber (c :: s)
    else do
      let (name, s) ← readFunction (c :: s)
      match s with
      | ')' :: rest => some (.call name [], rest)
      | s => (readArguments fuel (',' :: s)).map (Prod.map (.call name) id)
  | _, _ => none

/-- Arguments up to the closing parenthesis, each behind a comma. -/
def readArguments : Nat → List Char → Option (List Expr × List Char)
  | _, ')' :: rest => some ([], rest)
  | fuel + 1, ',' :: s => do
    let (e, s) ← readValue fuel s
    (readArguments fuel s).map (Prod.map (e :: ·) id)
  | _, _ => none

end

theorem IsFunctionName.exists_cons {name : String} (h : IsFunctionName name) :
    ∃ c w, name.toList = c :: w ∧ isWordChar c = true ∧ c.isDigit = false := by
  obtain ⟨c, w, hname⟩ := List.exists_cons_of_ne_nil h.1.1
  exact ⟨c, w, hname, h.1.2 c (by simp [hname]), h.2 c (by simp [hname])⟩

/-- A value is not empty, and does not begin like the end of a call. -/
theorem DerivesValue.exists_cons {e : Expr} {u : List Char} (h : DerivesValue e u) :
    ∃ c w, u = c :: w ∧ c ≠ ')' := by
  cases h with
  | member _ => exact ⟨'@', _, rfl, by decide⟩
  | number _ hn =>
    obtain ⟨c, w, rfl, hdigit⟩ := exists_digit_of_numberOf? hn
    refine ⟨c, w, rfl, ?_⟩
    rintro rfl
    exact absurd hdigit (by decide)
  | string _ => exact ⟨'\'', _, rfl, by decide⟩
  | signed hsign _ =>
    cases hsign with
    | not => exact ⟨'!', _, rfl, by decide⟩
    | negate => exact ⟨'-', _, rfl, by decide⟩
  | binary _ _ _ => exact ⟨'(', _, rfl, by decide⟩
  | call hname _ =>
    obtain ⟨c, w, heq, hword, -⟩ := hname.exists_cons
    refine ⟨c, _, by rw [heq]; rfl, ?_⟩
    rintro rfl
    exact absurd hword (by decide)

end IndexQuery
