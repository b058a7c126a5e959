/-
# Why a query is rejected

A rejection is a cause, not a text.  Each cause has a code, a message and, where it concerns one, a
field; the texts are in the functions below and nowhere else.

The causes are the constructors of `CompileError`, one for each way in which it is made.
-/
import IndexQuery.Expr.Basic
import IndexQuery.Schema.Basic

namespace IndexQuery

/-- What stood where a field name was wanted. -/
inductive Unresolvable where
  | node (shape : Shape)
  | callWithoutConstant
  deriving DecidableEq

/-- What stood there, in words. -/
def Unresolvable.description : Unresolvable → String
  | node shape => shape.name
  | callWithoutConstant => "call without constant argument"

/-- The tests of a field other than a range. -/
inductive FieldTest where
  | equality | geoRadius | containment | membership | startsWith | endsWith
  deriving DecidableEq

/-- The test in words. -/
def FieldTest.description : FieldTest → String
  | equality => "equality"
  | geoRadius => "geo filters"
  | containment => "containment"
  | membership => "membership"
  | startsWith => "StartsWith"
  | endsWith => "EndsWith"

/-- A node that is out of place. -/
inductive Misplaced where
  | predicate (found : Shape)
  | field (found : Shape)
  | constant (found : Shape)
  | recordValue
  deriving DecidableEq

/-- What is out of place, in words. -/
def Misplaced.message : Misplaced → String
  | predicate found => s!"A {found.name} node is not a predicate"
  | field found => s!"Comparison must be rooted at a field, found a {found.name} node"
  | constant found => s!"Comparison value must be a constant, found a {found.name} node"
  | recordValue => "Record construction is not a value expression"

/-- What is wrong with an argument or with the number of them; a JSON value is given by its text. -/
inductive ArgumentFault where
  | count (expected found : Nat)
  | missing (position : Nat)
  | emptyMembership
  | unknownUnit (name : String)
  | notNumber
  | notCount
  | quantileRange
  | sampleSize
  | unknownDirection (value : String)
  | unsupportedLiteral (value : String)
  deriving DecidableEq

/-- What is wrong, in words. -/
def ArgumentFault.message : ArgumentFault → String
  | count expected found => s!"expected {expected} arguments, found {found}"
  | missing position => s!"missing argument {position}"
  | emptyMembership => "membership list is empty"
  | unknownUnit name => s!"unknown unit '{name}'"
  | notNumber => "expected a number"
  | notCount => "expected a non-negative integer"
  | quantileRange => "quantile must be within [0, 1]"
  | sampleSize => "sample size must be a positive integer"
  | unknownDirection value => s!"unknown sort direction {value}"
  | unsupportedLiteral value => s!"unsupported literal {value}"

/-- Why a query is rejected. -/
inductive CompileError where
  | missingIndex
  | unresolvableField (found : Unresolvable)
  | notSearchable (field : String)
  | kindForTest (field : String) (kind : FieldKind) (test : FieldTest)
  | kindForRange (field : String) (kind : FieldKind)
  | misplaced (what : Misplaced)
  | unsupportedOperator (name : String)
  | unknownSeparator (op : BinaryOp)
  | invalidArgument (context : String) (fault : ArgumentFault)
  deriving DecidableEq

namespace CompileError

/-- The code of a rejection. -/
def code : CompileError → String
  | missingIndex => "RQ_MISSING_INDEX_METADATA"
  | unresolvableField _ => "RQ_UNRESOLVABLE_FIELD_REFERENCE"
  | notSearchable _ => "RQ_FIELD_NOT_SEARCHABLE"
  | kindForTest .. => "RQ_UNSUPPORTED_FIELD_KIND_FOR_EQUALITY"
  | kindForRange .. => "RQ_UNSUPPORTED_FIELD_KIND_FOR_RANGE"
  | misplaced _ => "RQ_INVALID_FILTER_SHAPE"
  | unsupportedOperator _ => "RQ_UNSUPPORTED_OPERATOR"
  | unknownSeparator _ => "RQ_UNKNOWN_SEPARATOR"
  | invalidArgument .. => "RQ_INVALID_ARGUMENT"

/-- The message of a rejection. -/
def message : CompileError → String
  | missingIndex => "Target type does not declare an index"
  | unresolvableField found => s!"Cannot resolve a field name from a {found.description} node"
  | notSearchable field => s!"Field '{field}' is not searchable"
  | kindForTest field kind test =>
    s!"Field '{field}' of kind {kind.title} does not support {test.description}"
  | kindForRange field kind =>
    s!"Field '{field}' of kind {kind.title} does not support range comparisons"
  | misplaced what => what.message
  | unsupportedOperator name => s!"Unsupported operator '{name}'"
  | unknownSeparator op => s!"Operator '{op.symbol}' cannot combine predicates"
  | invalidArgument context fault => s!"{context}: {fault.message}"

/-- The field that a rejection concerns. -/
def field? : CompileError → Option String
  | notSearchable field | kindForTest field .. | kindForRange field _ => some field
  | _ => none

/-- The code and the message. -/
def display (e : CompileError) : String :=
  s!"{e.code}: {e.message}"

end CompileError

/-- A result, or why there is none. -/
abbrev Compiled (α : Type) := Except CompileError α

end IndexQuery
