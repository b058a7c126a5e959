/-
# Field names and constants in expressions

Three resolvers take field names from an expression: `resolveField` the one name of a sort key or a
reduction, `resolveFields` the keys of a group, `projection` the fields of a selection.  They differ
only in what they make of a record and of what is wrapped around it.

Inside a predicate the rules are stricter: `fieldOperand` wants a member or a call, below
conversions only, and `constantOperand` a constant below conversions only.

The first two are `resolve_field` and `resolve_fields`; `fieldOperand` and `constantOperand` are
`field_operand` and `constant_operand` of `PredicateCompiler`.
-/
import IndexQuery.Error
import IndexQuery.Json.Printer

namespace IndexQuery

namespace Expr

/-- The value of a constant node. -/
def constant? : Expr → Option Json
  | constant value => some value
  | _ => none

/-- The one field name of an expression: a member's name, a constant as text, the first constant
argument of a call; operators with one operand and lambdas are looked through. -/
def resolveField : Expr → Compiled String
  | constant value => .ok value.plain
  | member name => .ok name
  | call _ args =>
    match args.findSome? constant? with
    | some value => .ok value.plain
    | none => .error (.unresolvableField .callWithoutConstant)
  | unary _ operand => operand.resolveField
  | lambda body => body.resolveField
  | binary .. => .error (.unresolvableField (.node .binary))
  | record _ => .error (.unresolvableField (.node .record))

/-- The field names of a selector: a record's members, or one name; operators with one operand and
lambdas are looked through. -/
def resolveFields : Expr → Compiled (List String)
  | record members => .ok members
  | lambda body => body.resolveFields
  | unary _ operand => operand.resolveFields
  | e => e.resolveField.map ([·])

/-- The fields that a selection returns: a record's members, or one name; lambdas and conversions
are looked through before a record is looked for. -/
def projection (e : Expr) : Compiled (List String) :=
  match e.peel with
  | record members => .ok members
  | e => e.resolveField.map ([·])

/-- The field that a comparison is about. -/
def fieldOperand : Expr → Compiled String
  | member name => .ok name
  | call name args => (call name args).resolveField
  | unary .convert operand => operand.fieldOperand
  | e => .error (.misplaced (.field e.shape))

/-- The constant that a field is compared with. -/
def constantOperand : Expr → Compiled Json
  | constant value => .ok value
  | unary .convert operand => operand.constantOperand
  | e => .error (.misplaced (.constant e.shape))

end Expr

end IndexQuery
