/-
# Filters

A filter is a boolean tree over clauses, and its text is the query language of the engine: `(a b)`
for both, `(a | b)` for either, `-a` for not, and a clause about one field at each leaf.

A clause fixes the form of its leaf.  Values of a tag clause are escaped and a phrase is quoted;
what stands in a wildcard, in a list of words or in a range is written as it is.

Clauses are what `comparison`, `equality`, `membership`, `affix` and `geo_filter` of `PredicateCompiler`
decide on; the text that those functions write at once is here a function of the clause.
-/
import IndexQuery.Plan.Basic
import IndexQuery.Text.Escape

namespace IndexQuery

/-- A value with a wildcard before or after it, or none. -/
structure Pattern where
  value : String
  before : Bool := false
  after : Bool := false
  deriving DecidableEq

namespace Pattern

/-- The pattern around the written value. -/
def around (p : Pattern) (value : String) : String :=
  (if p.before then "*" else "") ++ value ++ (if p.after then "*" else "")

/-- The pattern as it stands in a tag clause. -/
def tagText (p : Pattern) : String :=
  p.around (escapeTag p.value)

/-- The pattern as it stands in a text clause. -/
def plainText (p : Pattern) : String :=
  p.around p.value

end Pattern

/-- An end of a range. -/
inductive Bound where
  | unbounded
  | inclusive (value : String)
  | exclusive (value : String)
  deriving DecidableEq

/-- The bound in a range, an open end written with the given sign in front. -/
def Bound.text (sign : String) : Bound → String
  | unbounded => sign ++ "inf"
  | inclusive value => value
  | exclusive value => "(" ++ value

/-- A clause about one field. -/
inductive Clause where
  | tag (field : String) (patterns : List Pattern)
  | phrase (field : String) (value : String)
  | wildcard (field : String) (pattern : Pattern)
  | words (field : String) (values : List String)
  | range (field : String) (low high : Bound)
  | geo (radius : GeoRadius)
  deriving DecidableEq

namespace Clause

/-- The head of a clause about a field. -/
def head (field : String) : String :=
  "@" ++ field ++ ":"

/-- The text of a clause. -/
def text : Clause → String
  | tag field patterns =>
    head field ++ "\x7b" ++ "|".intercalate (patterns.map Pattern.tagText) ++ "\x7d"
  | phrase field value => head field ++ quotePhrase value
  | wildcard field pattern => head field ++ pattern.plainText
  | words field values => head field ++ "(" ++ "|".intercalate values ++ ")"
  | range field low high => head field ++ "[" ++ low.text "-" ++ " " ++ high.text "" ++ "]"
  | geo r =>
    head r.field ++ "[" ++ " ".intercalate
      [r.longitude.plainText, r.latitude.plainText, r.radius.plainText, r.unit.name] ++ "]"

/-- The range that holds one value. -/
def exactly (field value : String) : Clause :=
  range field (.inclusive value) (.inclusive value)

end Clause

/-- A filter.  `group` is a pair of parentheses of its own, `anyOf` a choice between clauses. -/
inductive Filter where
  | clause (c : Clause)
  | group (f : Filter)
  | negated (f : Filter)
  | both (left right : Filter)
  | either (left right : Filter)
  | anyOf (clauses : List Clause)
  deriving DecidableEq

namespace Filter

/-- The text of a filter. -/
def text : Filter → String
  | clause c => c.text
  | group f => "(" ++ f.text ++ ")"
  | negated f => "-" ++ f.text
  | both left right => "(" ++ left.text ++ " " ++ right.text ++ ")"
  | either left right => "(" ++ left.text ++ " | " ++ right.text ++ ")"
  | anyOf clauses => "(" ++ " | ".intercalate (clauses.map Clause.text) ++ ")"

end Filter

end IndexQuery
