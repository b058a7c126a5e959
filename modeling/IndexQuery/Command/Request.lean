/-
# Requests

A request is one expression tree in JSON.
-/
import IndexQuery.Expr.Json
import IndexQuery.File.Basic
import IndexQuery.Json.Reader
import IndexQuery.Text.Blank

namespace IndexQuery

/-- Why a text is no request. -/
inductive RequestFault where
  | notText
  | empty
  | notJson
  | notExpr
  deriving DecidableEq

namespace RequestFault

/-- The code of the fault. -/
def code : RequestFault → String
  | notText | empty | notJson => "RQ_CLI_IO_ERROR"
  | notExpr => "RQ_CLI_REQUEST_ERROR"

/-- The fault in words. -/
def message : RequestFault → String
  | notText => ReadFault.notText.message
  | empty => "Empty input"
  | notJson => "JSON error:"
  | notExpr => "Invalid expression tree:"

end RequestFault

namespace Request

/-- The value of a request text. -/
def value (text : String) : Except RequestFault Json :=
  if isBlankText text then .error .empty
  else
    match Json.parse? text with
    | some value => .ok value
    | none => .error .notJson

/-- The expression of a value. -/
def exprOf (value : Json) : Except RequestFault Expr :=
  match Expr.ofJson? value with
  | some e => .ok e
  | none => .error .notExpr

/-- The expression of a request text. -/
def expr (text : String) : Except RequestFault Expr := do
  exprOf (← value text)

/-- The expression of the bytes of a request. -/
def read (bytes : ByteArray) : Except RequestFault Expr :=
  match utf8Text bytes with
  | .error _ => .error .notText
  | .ok text => expr text

end Request

end IndexQuery
