/-
# Value expressions

Filters and computed properties inside an aggregation are written in the engine's own expression
language.  A `Term` is the tree of such an expression, `Term.text` its text: fields as `@name`,
numbers, single-quoted strings, every operation in parentheses, calls by the engine's names.

`Term.ofExpr` takes a query expression to its term.  Lambdas and conversions leave no trace, truth
values become numbers, and a call must name one of the engine's functions.

`valueText` is `compile_value`; `Term.operator`, `Term.literal` and `Term.function?` are its `operator`,
`literal` and `function_name`.
-/
import IndexQuery.Expr.Field
import IndexQuery.Text.Escape

namespace IndexQuery

/-- A value expression. -/
inductive Term where
  | field (name : String)
  | number (n : Number)
  | string (s : String)
  | binary (op : BinaryOp) (left right : Term)
  | not (operand : Term)
  | negate (operand : Term)
  | call (function : String) (args : List Term)

namespace Term

/-- The operator in a value expression. -/
def operator : BinaryOp → String
  | .and => "&&"
  | .or => "||"
  | op => op.name

mutual

/-- The text of a value expression. -/
def text : Term → String
  | field name => "@" ++ name
  | number n => n.text
  | string s => quoteString s
  | binary op left right => "(" ++ left.text ++ " " ++ operator op ++ " " ++ right.text ++ ")"
  | not operand => "!" ++ operand.text
  | negate operand => "-" ++ operand.text
  | call function args => function ++ "(" ++ ",".intercalate (texts args) ++ ")"
termination_by structural t => t

/-- The text of each argument. -/
def texts : List Term → List String
  | [] => []
  | t :: rest => t.text :: texts rest
termination_by structural ts => ts

end

theorem texts_eq_map (ts : List Term) : texts ts = ts.map text := by
  induction ts with
  | nil => rfl
  | cons t rest ih => simp [texts, ih]

/-! ## From query expressions -/

/-- The functions of the engine: the name in a query expression and the engine's own, which may be
used as well. -/
def functions : List (String × String) :=
  [("ToUpper", "upper"), ("ToLower", "lower"), ("Abs", "abs"), ("Ceiling", "ceil"),
   ("Floor", "floor"), ("Sqrt", "sqrt"), ("Log", "log"), ("Log2", "log2"), ("Exp", "exp"),
   ("Length", "strlen"), ("Substring", "substr"), ("Format", "format"), ("Contains", "contains"),
   ("StartsWith", "startswith"), ("Split", "split"), ("FormatTimestamp", "timefmt"),
   ("ParseTime", "parsetime"), ("Day", "day"), ("Hour", "hour"), ("Minute", "minute"),
   ("Month", "month"), ("DayOfWeek", "dayofweek"), ("DayOfMonth", "dayofmonth"),
   ("DayOfYear", "dayofyear"), ("Year", "year"), ("MonthOfYear", "monthofyear"),
   ("GeoDistance", "geodistance")]

/-- The engine's name of a function. -/
def function? (name : String) : Option String :=
  (functions.find? fun f => f.1 == name || f.2 == name).map (·.2)

/-- A constant in a value expression. -/
def literal : Json → Compiled Term
  | .num n => .ok (.number n)
  | .str s => .ok (.string s)
  | .bool b => .ok (.number (.whole (if b then 1 else 0)))
  | j => .error (.invalidArgument "value expression" (.unsupportedLiteral j.text))

mutual

/-- The value expression of a query expression. -/
def ofExpr : Expr → Compiled Term
  | .member name => .ok (.field name)
  | .constant value => literal value
  | .binary op left right => do
    let l ← ofExpr left
    let r ← ofExpr right
    return .binary op l r
  | .unary .not operand => (ofExpr operand).map .not
  | .unary .negate operand => (ofExpr operand).map .negate
  | .unary .convert operand => ofExpr operand
  | .call name args =>
    match function? name with
    | none => .error (.unsupportedOperator name)
    | some function => (ofExprs args).map (.call function)
  | .lambda body => ofExpr body
  | .record _ => .error (.misplaced .recordValue)
termination_by structural e => e

/-- The value expression of each argument, or the first rejection. -/
def ofExprs : List Expr → Compiled (List Term)
  | [] => .ok []
  | e :: rest => do
    let t ← ofExpr e
    let ts ← ofExprs rest
    return t :: ts
termination_by structural es => es

end

end Term

/-- The text of the value expression of a query expression. -/
def valueText (e : Expr) : Compiled String :=
  (Term.ofExpr e).map Term.text

end IndexQuery
