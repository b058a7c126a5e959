/-
# Expressions in JSON

A node is written as an object with its `kind` and its fields, in any order and beside any other
members, or as an array of the kind and the fields in their order.  The arguments of a call and the
members of a record may be left out when there are none.  The kind is a name; inside a tree it may
also be the number of the kind.

The reader is structural.  Each JSON value is read once, bottom up, as everything a field of a node
can be: the value, the expression it is and the expressions it lists (`Part`).  What a node makes of
its fields is then no recursion at all (`assemble?`).
-/
import IndexQuery.Expr.Basic

namespace IndexQuery

/-- The fields of a node, in their order. -/
def Shape.fields : Shape → List String
  | .binary => ["op", "left", "right"]
  | .unary => ["op", "operand"]
  | .member => ["name"]
  | .constant => ["value"]
  | .call => ["name", "args"]
  | .lambda => ["body"]
  | .record => ["members"]

/-- The kind that is written: a name, or, inside a tree, a number. -/
def Shape.ofJson? (nested : Bool) : Json → Option Shape
  | .str name => ofName? name
  | .num (.whole n) => if nested then all[n.toNat]? else none
  | _ => none

/-- What is written for a field of a node: the value, the expression it is, and the expressions it
lists. -/
structure Part where
  value : Json
  expr? : Option Expr
  exprs? : Option (List Expr)

namespace Part

/-- The expression of a node from its kind and its fields. -/
def assemble? (shape : Shape) (field? : String → Option Part) : Option Expr :=
  match shape with
  | .binary => do
    let op ← (← (← field? "op").value.operatorName?) |> BinaryOp.ofName?
    let left ← (← field? "left").expr?
    let right ← (← field? "right").expr?
    return .binary op left right
  | .unary => do
    let op ← (← (← field? "op").value.operatorName?) |> UnaryOp.ofName?
    let operand ← (← field? "operand").expr?
    return .unary op operand
  | .member => do
    return .member (← (← field? "name").value.str?)
  | .constant => do
    return .constant (← field? "value").value
  | .call => do
    let name ← (← field? "name").value.str?
    let args ← match field? "args" with
      | some part => part.exprs?
      | none => some []
    return .call name args
  | .lambda => do
    return .lambda (← (← field? "body").expr?)
  | .record => do
    let members ← match field? "members" with
      | some part => part.value.items?.bind Json.strings?
      | none => some []
    return .record members

/-- A node from its members by name. -/
def ofNamed? (nested : Bool) (members : List (String × Part)) : Option Expr := do
  let kind ← findNamed? "kind" members
  let shape ← Shape.ofJson? nested kind.value
  assemble? shape fun key => findNamed? key members

/-- A node from its kind and its fields in order; no more fields than the kind has. -/
def ofListed? (nested : Bool) : List Part → Option Expr
  | [] => none
  | kind :: fields => do
    let shape ← Shape.ofJson? nested kind.value
    if fields.length ≤ shape.fields.length then
      assemble? shape fun key => findNamed? key (shape.fields.zip fields)
    else none

/-- The expressions of parts that all are expressions. -/
def allExprs? : List Part → Option (List Expr)
  | [] => some []
  | part :: rest =>
    match part.expr?, allExprs? rest with
    | some e, some es => some (e :: es)
    | _, _ => none

mutual

/-- Everything that a JSON value can be as a field of a node. -/
def ofJson : Json → Part
  | .arr items =>
    let parts := ofItems items
    ⟨.arr items, ofListed? true parts, allExprs? parts⟩
  | .obj members => ⟨.obj members, ofNamed? true (ofMembers members), none⟩
  | .null => ⟨.null, none, none⟩
  | .bool b => ⟨.bool b, none, none⟩
  | .num n => ⟨.num n, none, none⟩
  | .str s => ⟨.str s, none, none⟩
termination_by structural j => j

/-- Each item as a part. -/
def ofItems : List Json → List Part
  | [] => []
  | item :: rest => ofJson item :: ofItems rest
termination_by structural items => items

/-- Each member as a part. -/
def ofMembers : List (String × Json) → List (String × Part)
  | [] => []
  | (key, value) :: rest => (key, ofJson value) :: ofMembers rest
termination_by structural members => members

end

@[simp] theorem value_ofJson (j : Json) : (ofJson j).value = j := by
  cases j <;> rfl

end Part

namespace Expr

/-- The expression that a JSON value stands for.  At the root the kind is a name. -/
def ofJson? : Json → Option Expr
  | .arr items => Part.ofListed? false (Part.ofItems items)
  | .obj members => Part.ofNamed? false (Part.ofMembers members)
  | _ => none

mutual

/-- The JSON form of an expression: every node an object with all its fields. -/
def toJson : Expr → Json
  | .binary op left right =>
    .obj [("kind", .str "binary"), ("left", left.toJson), ("op", .str op.name),
      ("right", right.toJson)]
  | .unary op operand =>
    .obj [("kind", .str "unary"), ("op", .str op.name), ("operand", operand.toJson)]
  | .member name => .obj [("kind", .str "member"), ("name", .str name)]
  | .constant value => .obj [("kind", .str "constant"), ("value", value)]
  | .call name args =>
    .obj [("args", .arr (toJsons args)), ("kind", .str "call"), ("name", .str name)]
  | .lambda body => .obj [("body", body.toJson), ("kind", .str "lambda")]
  | .record members => .obj [("kind", .str "new"), ("members", Json.ofStrings members)]
termination_by structural e => e

/-- The JSON form of each expression. -/
def toJsons : List Expr → List Json
  | [] => []
  | e :: rest => e.toJson :: toJsons rest
termination_by structural es => es

end

end Expr

end IndexQuery
