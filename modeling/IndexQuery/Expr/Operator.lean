/-
# Operators

The operators of an expression, with the names they go by: the name in JSON (`and`, or one of its
aliases when read), and the symbol in messages (`AND`).
-/
import IndexQuery.Json.Basic

namespace IndexQuery

/-- Operators with two operands. -/
inductive BinaryOp where
  | gt | lt | ge | le | eq | ne | and | or | add | sub | mul | div | mod | pow
  deriving DecidableEq

namespace BinaryOp

/-- The name in JSON. -/
def name : BinaryOp → String
  | gt => ">"
  | lt => "<"
  | ge => ">="
  | le => "<="
  | eq => "=="
  | ne => "!="
  | and => "and"
  | or => "or"
  | add => "+"
  | sub => "-"
  | mul => "*"
  | div => "/"
  | mod => "%"
  | pow => "^"

/-- The symbol in messages. -/
def symbol : BinaryOp → String
  | and => "AND"
  | or => "OR"
  | op => op.name

/-- The operator of a name; the connectives also have aliases. -/
def ofName? : String → Option BinaryOp
  | ">" => some gt
  | "<" => some lt
  | ">=" => some ge
  | "<=" => some le
  | "==" => some eq
  | "!=" => some ne
  | "and" | "&&" | "AND" => some and
  | "or" | "||" | "OR" => some or
  | "+" => some add
  | "-" => some sub
  | "*" => some mul
  | "/" => some div
  | "%" => some mod
  | "^" => some pow
  | _ => none

/-- The connectives. -/
def isLogical : BinaryOp → Bool
  | and | or => true
  | _ => false

/-- The comparisons by order. -/
def isRange : BinaryOp → Bool
  | gt | lt | ge | le => true
  | _ => false

/-- The comparisons by equality. -/
def isEquality : BinaryOp → Bool
  | eq | ne => true
  | _ => false

/-- The operators of arithmetic. -/
def isArithmetic : BinaryOp → Bool
  | add | sub | mul | div | mod | pow => true
  | _ => false

@[simp] theorem ofName?_name (op : BinaryOp) : ofName? op.name = some op := by
  cases op <;> rfl

end BinaryOp

/-- Operators with one operand. -/
inductive UnaryOp where
  | not | negate | convert
  deriving DecidableEq

namespace UnaryOp

/-- The name in JSON. -/
def name : UnaryOp → String
  | not => "not"
  | negate => "negate"
  | convert => "convert"

/-- The operator of a name. -/
def ofName? : String → Option UnaryOp
  | "not" => some not
  | "negate" => some negate
  | "convert" => some convert
  | _ => none

@[simp] theorem ofName?_name (op : UnaryOp) : ofName? op.name = some op := by
  cases op <;> rfl

end UnaryOp

/-! ## Names as they are written -/

/-- The name of an enumeration's value: a string, or an object with that one name and null. -/
def Json.variant? : Json → Option String
  | .str s => some s
  | .obj [(name, .null)] => some name
  | _ => none

/-- The name of an operator inside a node, where the object form may also hold an empty object. -/
def Json.operatorName? : Json → Option String
  | .obj [(name, .obj [])] => some name
  | j => j.variant?

end IndexQuery
