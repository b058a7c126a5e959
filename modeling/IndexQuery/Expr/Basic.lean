/-
# Expressions

A query arrives as an expression tree: comparisons and connectives, field references, constants,
calls, lambdas and records of field names.  A chain of stages is a nest of calls in which the first
argument of a call is the chain so far (`Expr.chain`).
-/
import IndexQuery.Expr.Operator

namespace IndexQuery

/-- A query expression. -/
inductive Expr where
  | binary (op : BinaryOp) (left right : Expr)
  | unary (op : UnaryOp) (operand : Expr)
  | member (name : String)
  | constant (value : Json)
  | call (name : String) (args : List Expr)
  | lambda (body : Expr)
  | record (members : List String)

/-- The seven kinds of node. -/
inductive Shape where
  | binary | unary | member | constant | call | lambda | record
  deriving DecidableEq

namespace Shape

/-- The name in JSON and in messages. -/
def name : Shape → String
  | binary => "binary"
  | unary => "unary"
  | member => "member"
  | constant => "constant"
  | call => "call"
  | lambda => "lambda"
  | record => "new"

/-- All kinds, in the order in which they are numbered. -/
def all : List Shape :=
  [binary, unary, member, constant, call, lambda, record]

/-- The kind of a name. -/
def ofName? (name : String) : Option Shape :=
  all.find? (·.name == name)

@[simp] theorem ofName?_name (shape : Shape) : ofName? shape.name = some shape := by
  cases shape <;> rfl

end Shape

namespace Expr

/-- The kind of the root node. -/
def shape : Expr → Shape
  | binary .. => .binary
  | unary .. => .unary
  | member _ => .member
  | constant _ => .constant
  | call .. => .call
  | lambda _ => .lambda
  | record _ => .record

/-- A binary node at the root. -/
def isBinary : Expr → Bool
  | binary .. => true
  | _ => false

/-- A conversion, which changes no value. -/
def convert (e : Expr) : Expr :=
  unary .convert e

/-- The expression below all lambdas and conversions at its root. -/
def peel : Expr → Expr
  | lambda body => body.peel
  | unary .convert operand => operand.peel
  | e => e

/-- One more stage of a chain: the chain so far becomes the first argument. -/
def chain (e : Expr) (stage : String) (args : List Expr) : Expr :=
  call stage (e :: args)

end Expr

end IndexQuery
