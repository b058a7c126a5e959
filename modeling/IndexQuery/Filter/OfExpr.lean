/-
# Filters from expressions

`Filter.ofExpr` takes a predicate to its filter under a schema.  A comparison is about a field that
the schema lists and allows to be searched, and the kind of the field decides on the clause:
equality has one for tags, texts and numbers, a range one for numbers, a radius one for positions.

Where a predicate stands matters for one thing.  A comparison on its own gets parentheses; as an
operand of `and` or `or` it gets none, since the connective has a pair already.  Lambdas and
conversions do not change where a predicate stands, and the operand of a negation stands alone.

The functions are those of `PredicateCompiler`.  Its `compile` and `build` are the two positions of
`Filter.build`, `kind_of` is `Schema.searchKind`, `equality` is `Clause.equals`, and `translate_call` is
`Filter.ofCall` with one function for each of `contains`, `membership`, `affix` and `geo_filter`.
-/
import IndexQuery.Expr.Field
import IndexQuery.Filter.Basic

namespace IndexQuery

/-- The kind of a field that may be searched. -/
def Schema.searchKind (s : Schema) (field : String) : Compiled FieldKind :=
  match s.field? field with
  | some spec => if spec.searchable then .ok spec.resolved else .error (.notSearchable field)
  | none => .error (.notSearchable field)

/-- A constant as a bound of a numeric range: truth values are one and zero. -/
def numericText : Json → String
  | .bool true => "1"
  | .bool false => "0"
  | j => j.plain

namespace Clause

/-- The clause for a field with exactly one value. -/
def equals (field : String) (kind : FieldKind) (value : Json) : Compiled Clause :=
  match kind with
  | .tag => .ok (.tag field [⟨value.plain, false, false⟩])
  | .text => .ok (.phrase field value.plain)
  | .numeric => .ok (.exactly field (numericText value))
  | kind => .error (.kindForTest field kind .equality)

/-- The clause for a field compared by order; `low` and `high` are its bounds. -/
def ranges (field : String) (kind : FieldKind) (low high : Bound) : Compiled Clause :=
  match kind with
  | .numeric => .ok (.range field low high)
  | kind => .error (.kindForRange field kind)

end Clause

/-! ## 1. Comparisons -/

namespace Filter

/-- A comparison of a field with a constant, without parentheses. -/
def comparison (s : Schema) (op : BinaryOp) (left right : Expr) : Compiled Filter := do
  let field ← left.fieldOperand
  let value ← right.constantOperand
  let kind ← s.searchKind field
  let v := numericText value
  match op with
  | .gt => (Clause.ranges field kind (.exclusive v) .unbounded).map .clause
  | .lt => (Clause.ranges field kind .unbounded (.exclusive v)).map .clause
  | .ge => (Clause.ranges field kind (.inclusive v) .unbounded).map .clause
  | .le => (Clause.ranges field kind .unbounded (.inclusive v)).map .clause
  | .eq => (Clause.equals field kind value).map .clause
  | .ne => (Clause.equals field kind value).map fun c => .negated (.clause c)
  | op => .error (.unsupportedOperator op.symbol)

/-- A field on its own: it is true. -/
def truth (s : Schema) (name : String) : Compiled Filter :=
  comparison s .eq (.member name) (.constant (.bool true))

/-! ## 2. Calls -/

/-- The two arguments of a call. -/
def twoArgs (name : String) : List Expr → Compiled (Expr × Expr)
  | [a, b] => .ok (a, b)
  | args => .error (.invalidArgument name (.count 2 args.length))

/-- A constant number, named by what it is for. -/
def numberArg (context : String) (e : Expr) : Compiled Binary64 := do
  let value ← e.constantOperand
  match value.binary64? with
  | some x => .ok x
  | none => .error (.invalidArgument context .notNumber)

/-- The radius of five arguments: field, longitude, latitude, radius, unit. -/
def geoRadius (s : Schema) : List Expr → Compiled GeoRadius
  | [field, longitude, latitude, radius, unit] => do
    let field ← field.peel.fieldOperand
    let kind ← s.searchKind field
    if kind ≠ .geo then
      .error (.kindForTest field kind .geoRadius)
    else
      let unitName := (← unit.constantOperand).plain
      match GeoUnit.ofName? unitName with
      | none => .error (.invalidArgument "GeoFilter" (.unknownUnit unitName))
      | some unit =>
        let longitude ← numberArg "GeoFilter longitude" longitude
        let latitude ← numberArg "GeoFilter latitude" latitude
        let radius ← numberArg "GeoFilter radius" radius
        return ⟨field, longitude, latitude, radius, unit⟩
  | args => .error (.invalidArgument "GeoFilter" (.count 5 args.length))

/-- A field that has one of several values. -/
def membership (s : Schema) (field : String) (values : List Json) : Compiled Filter := do
  if values.isEmpty then
    .error (.invalidArgument "Contains" .emptyMembership)
  else
    match ← s.searchKind field with
    | .tag => return .clause (.tag field (values.map fun v => ⟨v.plain, false, false⟩))
    | .text => return .clause (.words field (values.map Json.plain))
    | .numeric =>
      match values.map fun v => Clause.exactly field (numericText v) with
      | [c] => return .clause c
      | clauses => return .anyOf clauses
    | kind => .error (.kindForTest field kind .membership)

/-- A field that contains a value. -/
def containment (s : Schema) (target item : Expr) : Compiled Filter := do
  let field ← target.fieldOperand
  let value := (← item.constantOperand).plain
  match ← s.searchKind field with
  | .text => return .clause (.wildcard field ⟨value, true, true⟩)
  | .tag => return .clause (.tag field [⟨value, false, false⟩])
  | kind => .error (.kindForTest field kind .containment)

/-- `Contains`: of a list constant and a field, or of a field and a constant. -/
def contains (s : Schema) (args : List Expr) : Compiled Filter := do
  let (target, item) ← twoArgs "Contains" args
  match target.constantOperand with
  | .ok (.arr values) => membership s (← item.fieldOperand) values
  | _ => containment s target item

/-- A field that begins or ends with a value. -/
def affix (s : Schema) (test : FieldTest) (args : List Expr) : Compiled Filter := do
  let (target, value) ← twoArgs test.description args
  let field ← target.fieldOperand
  let value := (← value.constantOperand).plain
  let pattern : Pattern := ⟨value, test == .endsWith, test == .startsWith⟩
  match ← s.searchKind field with
  | .text => return .clause (.wildcard field pattern)
  | .tag => return .clause (.tag field [pattern])
  | kind => .error (.kindForTest field kind test)

/-- `Equals`: a field and a constant. -/
def equals (s : Schema) (args : List Expr) : Compiled Filter := do
  let (target, value) ← twoArgs "Equals" args
  let field ← target.fieldOperand
  let kind ← s.searchKind field
  let value ← value.constantOperand
  return .clause (← Clause.equals field kind value)

/-- The calls that are predicates. -/
def ofCall (s : Schema) (name : String) (args : List Expr) : Compiled Filter :=
  match name with
  | "Contains" => contains s args
  | "StartsWith" => affix s .startsWith args
  | "EndsWith" => affix s .endsWith args
  | "Equals" => equals s args
  | "GeoFilter" => (geoRadius s args).map fun r => .clause (.geo r)
  | name => .error (.unsupportedOperator name)

/-! ## 3. Predicates -/

/-- Where a predicate stands: on its own, or as an operand of a connective. -/
inductive Position where
  | alone | operand
  deriving DecidableEq

/-- A comparison where it stands: in parentheses on its own. -/
def Position.place : Position → Filter → Filter
  | .alone, f => .group f
  | .operand, f => f

/-- What an operator makes of two filters. -/
def connective : BinaryOp → Compiled (Filter → Filter → Filter)
  | .and => .ok .both
  | .or => .ok .either
  | op => .error (.unknownSeparator op)

/-- The filter of a predicate that stands at a position. -/
def build (s : Schema) (pos : Position) : Expr → Compiled Filter
  | .binary op left right =>
    if left.isBinary || right.isBinary || op.isLogical then do
      let join ← connective op
      let l ← build s .operand left
      let r ← build s .operand right
      return join l r
    else (comparison s op left right).map pos.place
  | .unary .not operand => (build s .alone operand).map .negated
  | .unary .convert operand => build s pos operand
  | .unary .negate _ => .error (.unsupportedOperator "-")
  | .call name args => ofCall s name args
  | .lambda body => build s pos body
  | .member name => (truth s name).map pos.place
  | .constant _ => .error (.misplaced (.predicate .constant))
  | .record _ => .error (.misplaced (.predicate .record))

/-- The filter of a predicate. -/
def ofExpr (s : Schema) (e : Expr) : Compiled Filter :=
  build s .alone e

end Filter

/-- The query text of a predicate. -/
def filterText (s : Schema) (e : Expr) : Compiled String :=
  (Filter.ofExpr s e).map Filter.text

end IndexQuery
