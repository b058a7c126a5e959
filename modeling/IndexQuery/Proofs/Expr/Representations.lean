/-
# Every representation of an expression is read as that expression

There are many JSON values for one expression.  Each node is written as an object or as an array, an
object may have its members in any order and others beside them, what is empty may be left out, and
an operator has aliases and two notations.  All of this is chosen anew at every node
(`Expr.RepresentedBy`).

What the two notations of a node have in common is `NodeForm`: the kind of the node and the values of
its fields, in their order, of which the last may be missing.  The reader sees no more of a node than
that (`NodeForm.node?_eq`), so each kind of node is read once and not once per notation.

The main result is that reading any representation gives back the expression, and that the JSON form of
an expression is one of its representations (`exprOf_of_representedBy`).
-/
import IndexQuery.Command.Request
import Mathlib.Data.List.Forall2

namespace IndexQuery

/-! ## 1. How a node is written -/

/-- **The two notations of a node**, from its kind and the values of its fields: an object that has a
member for each value and none for a field that is left out, or an array. -/
inductive NodeForm (shape : Shape) (values : List Json) : Json → Prop
  | object {members : List (String × Json)} :
      (members.map (·.1)).Nodup → ("kind", .str shape.name) ∈ members →
      (∀ member ∈ shape.fields.zip values, member ∈ members) →
      (∀ key ∈ shape.fields.drop values.length, key ∉ members.map (·.1)) →
      NodeForm shape values (.obj members)
  | array : NodeForm shape values (.arr (.str shape.name :: values))

/-- The names of an operator: the one it is written with, and its aliases. -/
def BinaryOp.names : BinaryOp → List String
  | .and => ["and", "&&", "AND"]
  | .or => ["or", "||", "OR"]
  | op => [op.name]

/-- A name as it is written for an operator: as a string, or as an object of that name and null. -/
inductive NameForm (name : String) : Json → Prop
  | string : NameForm name (.str name)
  | object : NameForm name (.obj [(name, .null)])

/-- **The JSON values of an expression.** -/
inductive Expr.RepresentedBy : Expr → Json → Prop
  | binary {op : BinaryOp} {l r : Expr} {name : String} {jop jl jr j : Json} :
      name ∈ op.names → NameForm name jop → RepresentedBy l jl → RepresentedBy r jr →
      NodeForm .binary [jop, jl, jr] j → RepresentedBy (.binary op l r) j
  | unary {op : UnaryOp} {e : Expr} {jop je j : Json} :
      NameForm op.name jop → RepresentedBy e je → NodeForm .unary [jop, je] j →
      RepresentedBy (.unary op e) j
  | member {name : String} {j : Json} :
      NodeForm .member [.str name] j → RepresentedBy (.member name) j
  | constant {value j : Json} : NodeForm .constant [value] j → RepresentedBy (.constant value) j
  | call {name : String} {args : List Expr} {jargs : List Json} {j : Json} :
      List.Forall₂ RepresentedBy args jargs → NodeForm .call [.str name, .arr jargs] j →
      RepresentedBy (.call name args) j
  | callBare {name : String} {j : Json} :
      NodeForm .call [.str name] j → RepresentedBy (.call name []) j
  | lambda {e : Expr} {je j : Json} :
      RepresentedBy e je → NodeForm .lambda [je] j → RepresentedBy (.lambda e) j
  | record {names : List String} {j : Json} :
      NodeForm .record [.arr (names.map .str)] j → RepresentedBy (.record names) j
  | recordBare {j : Json} : NodeForm .record [] j → RepresentedBy (.record []) j

/-! ## 2. Looking up a field -/

section Lookup

variable {α : Type}

/-- Members that hold values under the first of some keys, and nothing under the others, are looked up
as those keys with those values. -/
theorem findNamed?_eq_zip {members : List (String × α)} (hnodup : (members.map (·.1)).Nodup)
    {keys : List String} {values : List α} (hpresent : ∀ m ∈ keys.zip values, m ∈ members)
    (habsent : ∀ key ∈ keys.drop values.length, key ∉ members.map (·.1)) {key : String}
    (hkey : key ∈ keys) : findNamed? key members = findNamed? key (keys.zip values) := by
  induction keys generalizing values with
  | nil => cases hkey
  | cons k keys ih =>
    cases values with
    | nil => exact findNamed?_of_not_mem (habsent key hkey)
    | cons value values =>
      by_cases hk : k = key
      · subst hk
        rw [findNamed?_of_mem hnodup (hpresent (k, value) (by simp))]
        simp [findNamed?]
      · have hkeys : key ∈ keys := (List.mem_cons.mp hkey).resolve_left (Ne.symm hk)
        have hrest : ∀ m ∈ keys.zip values, m ∈ members :=
          fun m hm => hpresent m (List.mem_cons_of_mem _ hm)
        rw [ih hrest habsent hkeys]
        simp [findNamed?, hk]

end Lookup

namespace Part

theorem ofItems_eq_map (items : List Json) : ofItems items = items.map ofJson := by
  induction items with
  | nil => rfl
  | cons item rest ih => simp [ofItems, ih]

theorem zip_ofItems (keys : List String) (values : List Json) :
    keys.zip (ofItems values) = ofMembers (keys.zip values) := by
  induction keys generalizing values with
  | nil => rfl
  | cons key keys ih =>
    cases values with
    | nil => rfl
    | cons value values => simp [ofItems, ofMembers, ih]

theorem findNamed?_ofMembers (key : String) (members : List (String × Json)) :
    findNamed? key (ofMembers members) = (findNamed? key members).map ofJson := by
  induction members with
  | nil => rfl
  | cons m members ih =>
    obtain ⟨k, value⟩ := m
    by_cases h : k = key <;> simp [ofMembers, findNamed?, h, ih]

/-! ## 3. Reading a node -/

/-- A node is assembled from the fields of its kind and nothing else. -/
theorem assemble?_congr {shape : Shape} {f g : String → Option Part}
    (h : ∀ key ∈ shape.fields, f key = g key) : assemble? shape f = assemble? shape g := by
  cases shape <;> simp only [Shape.fields, List.forall_mem_cons, List.not_mem_nil] at h <;>
    simp only [assemble?, h]

/-- The node that a value stands for, at the root or inside a tree. -/
def node? (nested : Bool) : Json → Option Expr
  | .arr items => ofListed? nested (ofItems items)
  | .obj members => ofNamed? nested (ofMembers members)
  | _ => none

theorem expr?_ofJson (j : Json) : (ofJson j).expr? = node? true j := by
  cases j <;> rfl

end Part

theorem Expr.ofJson?_eq_node? (j : Json) : Expr.ofJson? j = Part.node? false j := by
  cases j <;> rfl

theorem Shape.ofJson?_name (nested : Bool) (shape : Shape) :
    ofJson? nested (.str shape.name) = some shape :=
  ofName?_name shape

/-- **A node is read by its kind and the values of its fields**, whichever notation it has. -/
theorem NodeForm.node?_eq {shape : Shape} {values : List Json} {j : Json}
    (h : NodeForm shape values j) (hlength : values.length ≤ shape.fields.length) (nested : Bool) :
    Part.node? nested j = Part.assemble? shape fun key =>
      findNamed? key (Part.ofMembers (shape.fields.zip values)) := by
  cases h with
  | @object members hnodup hkind hpresent habsent =>
    have hfields : ∀ key ∈ shape.fields, findNamed? key (Part.ofMembers members)
        = findNamed? key (Part.ofMembers (shape.fields.zip values)) := by
      intro key hkey
      rw [Part.findNamed?_ofMembers, Part.findNamed?_ofMembers,
        findNamed?_eq_zip hnodup hpresent habsent hkey]
    rw [Part.node?, Part.ofNamed?, Part.findNamed?_ofMembers, findNamed?_of_mem hnodup hkind,
      ← Part.assemble?_congr hfields]
    simp [Shape.ofJson?_name]
  | array =>
    have hlength' : (Part.ofItems values).length ≤ shape.fields.length := by
      simpa [Part.ofItems_eq_map] using hlength
    rw [Part.node?, Part.ofItems, Part.ofListed?, ← Part.zip_ofItems]
    simp [Shape.ofJson?_name, hlength']

/-! ## 4. Reading operators and lists -/

theorem BinaryOp.name_mem_names (op : BinaryOp) : op.name ∈ op.names := by
  cases op <;> simp [names, name]

theorem BinaryOp.ofName?_of_mem_names {op : BinaryOp} {name : String} (h : name ∈ op.names) :
    ofName? name = some op := by
  cases op <;> simp only [names, BinaryOp.name, List.mem_cons, List.not_mem_nil, or_false] at h <;>
    rcases h with rfl | rfl | rfl <;> rfl

theorem NameForm.operatorName?_eq {name : String} {j : Json} (h : NameForm name j) :
    j.operatorName? = some name := by
  cases h <;> rfl

theorem Json.strings?_map_str (names : List String) :
    strings? (names.map .str) = some names := by
  induction names with
  | nil => rfl
  | cons name names ih => simp [strings?, ih]

/-! ## 5. Reading a representation -/

namespace Expr

mutual

/-- A representation is read as its expression, at the root and inside a tree. -/
theorem RepresentedBy.node?_eq (nested : Bool) :
    (e : Expr) → {j : Json} → e.RepresentedBy j → Part.node? nested j = some e
  | .binary op l r, _, h => by
    cases h with
    | binary hname hop hl hr hform =>
      rw [hform.node?_eq (by simp [Shape.fields])]
      simp [Part.assemble?, Shape.fields, Part.ofMembers, findNamed?, Part.expr?_ofJson,
        hop.operatorName?_eq, BinaryOp.ofName?_of_mem_names hname,
        RepresentedBy.node?_eq true l hl, RepresentedBy.node?_eq true r hr]
  | .unary op e, _, h => by
    cases h with
    | unary hop he hform =>
      rw [hform.node?_eq (by simp [Shape.fields])]
      simp [Part.assemble?, Shape.fields, Part.ofMembers, findNamed?, Part.expr?_ofJson,
        hop.operatorName?_eq, RepresentedBy.node?_eq true e he]
  | .member name, _, h => by
    cases h with
    | member hform =>
      rw [hform.node?_eq (by simp [Shape.fields])]
      simp [Part.assemble?, Shape.fields, Part.ofMembers, findNamed?, Json.str?]
  | .constant value, _, h => by
    cases h with
    | constant hform =>
      rw [hform.node?_eq (by simp [Shape.fields])]
      simp [Part.assemble?, Shape.fields, Part.ofMembers, findNamed?]
  | .call name args, _, h => by
    cases h with
    | call hargs hform =>
      rw [hform.node?_eq (by simp [Shape.fields])]
      simp [Part.assemble?, Shape.fields, Part.ofMembers, findNamed?, Json.str?, Part.ofJson,
        RepresentedBy.allExprs?_eq args hargs]
    | callBare hform =>
      rw [hform.node?_eq (by simp [Shape.fields])]
      simp [Part.assemble?, Shape.fields, Part.ofMembers, findNamed?, Json.str?]
  | .lambda e, _, h => by
    cases h with
    | lambda he hform =>
      rw [hform.node?_eq (by simp [Shape.fields])]
      simp [Part.assemble?, Shape.fields, Part.ofMembers, findNamed?, Part.expr?_ofJson,
        RepresentedBy.node?_eq true e he]
  | .record names, _, h => by
    cases h with
    | record hform =>
      rw [hform.node?_eq (by simp [Shape.fields])]
      simp [Part.assemble?, Shape.fields, Part.ofMembers, findNamed?, Json.items?,
        Json.strings?_map_str]
    | recordBare hform =>
      rw [hform.node?_eq (by simp [Shape.fields])]
      simp [Part.assemble?, Shape.fields, Part.ofMembers, findNamed?]

/-- Representations of arguments are read as the arguments. -/
theorem RepresentedBy.allExprs?_eq :
    (es : List Expr) → {js : List Json} → List.Forall₂ RepresentedBy es js →
      Part.allExprs? (Part.ofItems js) = some es
  | [], _, .nil => rfl
  | e :: es, _, .cons he hes => by
    simp [Part.ofItems, Part.allExprs?, Part.expr?_ofJson, RepresentedBy.node?_eq true e he,
      RepresentedBy.allExprs?_eq es hes]

end

/-! ## 6. The JSON form is a representation -/

mutual

/-- The JSON form of an expression is one of its representations. -/
theorem representedBy_toJson : (e : Expr) → e.RepresentedBy e.toJson
  | .binary op l r => by
    refine .binary op.name_mem_names .string (representedBy_toJson l) (representedBy_toJson r) ?_
    exact .object (by simp) (by simp [Shape.name]) (by simp [Shape.fields]) (by simp [Shape.fields])
  | .unary op e => by
    refine .unary .string (representedBy_toJson e) ?_
    exact .object (by simp) (by simp [Shape.name]) (by simp [Shape.fields]) (by simp [Shape.fields])
  | .member name => .member (.object (by simp) (by simp [Shape.name]) (by simp [Shape.fields])
      (by simp [Shape.fields]))
  | .constant value => .constant (.object (by simp) (by simp [Shape.name]) (by simp [Shape.fields])
      (by simp [Shape.fields]))
  | .call name args => by
    refine .call (forall₂_toJsons args) ?_
    exact .object (by simp) (by simp [Shape.name]) (by simp [Shape.fields]) (by simp [Shape.fields])
  | .lambda e => by
    refine .lambda (representedBy_toJson e) ?_
    exact .object (by simp) (by simp [Shape.name]) (by simp [Shape.fields]) (by simp [Shape.fields])
  | .record names => .record (.object (by simp) (by simp [Shape.name])
      (by simp [Shape.fields, Json.ofStrings]) (by simp [Shape.fields]))

/-- So are the JSON forms of the arguments of a call. -/
theorem forall₂_toJsons : (es : List Expr) → List.Forall₂ RepresentedBy es (toJsons es)
  | [] => .nil
  | e :: es => .cons (representedBy_toJson e) (forall₂_toJsons es)

end

end Expr

/-! ## 7. One expression, many representations -/

theorem exprOf_eq_ok {e : Expr} {j : Json} (h : e.RepresentedBy j) : Request.exprOf j = .ok e := by
  rw [Request.exprOf, Expr.ofJson?_eq_node?, h.node?_eq]

/-- **Every representation of an expression is read as that expression.**  The JSON form is one of the
representations, so it is read back, and writing again what was read from any representation gives
that form. -/
theorem exprOf_of_representedBy (e : Expr) :
    (∀ j, e.RepresentedBy j → Request.exprOf j = .ok e) ∧
      e.RepresentedBy e.toJson ∧ Request.exprOf e.toJson = .ok e ∧
      ∀ j, e.RepresentedBy j → (Request.exprOf j).map Expr.toJson = .ok e.toJson := by
  refine ⟨fun j => exprOf_eq_ok, e.representedBy_toJson, exprOf_eq_ok e.representedBy_toJson, ?_⟩
  intro j hj
  rw [exprOf_eq_ok hj]
  rfl

/-- A connective under an alias, as an object in no order and with a member of no meaning, over a call
without its arguments and a comparison in arrays. -/
def mixedJson : Json :=
  .obj [("note", .num (.whole 7)),
    ("right", .arr [.str "binary", .obj [("==", .null)], .arr [.str "member", .str "city"],
      .obj [("value", .arr []), ("kind", .str "constant")]]),
    ("op", .obj [("&&", .null)]), ("left", .obj [("kind", .str "call"), ("name", .str "Near")]),
    ("kind", .str "binary")]

/-- The expression of `mixedJson`. -/
def mixedExpr : Expr :=
  .binary .and (.call "Near" []) (.binary .eq (.member "city") (.constant (.arr [])))

theorem mixedExpr_representedBy : mixedExpr.RepresentedBy mixedJson := by
  have hleft : (Expr.call "Near" []).RepresentedBy
      (.obj [("kind", .str "call"), ("name", .str "Near")]) :=
    .callBare (.object (by simp) (by simp [Shape.name]) (by simp [Shape.fields])
      (by simp [Shape.fields]))
  have hconstant : (Expr.constant (.arr [])).RepresentedBy
      (.obj [("value", .arr []), ("kind", .str "constant")]) :=
    .constant (.object (by simp) (by simp [Shape.name]) (by simp [Shape.fields])
      (by simp [Shape.fields]))
  refine .binary (by simp [BinaryOp.names]) (.object : NameForm "&&" _) hleft
    (.binary BinaryOp.eq.name_mem_names .object (.member .array) hconstant .array) ?_
  exact .object (by simp) (by simp [Shape.name])
    (by simp [Shape.fields, Shape.name, BinaryOp.name]) (by simp [Shape.fields])

theorem exprOf_mixedJson : mixedExpr.RepresentedBy mixedJson ∧
    Request.exprOf mixedJson = .ok mixedExpr ∧
    (Request.exprOf mixedJson).map Expr.toJson = .ok mixedExpr.toJson :=
  have h := exprOf_of_representedBy mixedExpr
  ⟨mixedExpr_representedBy, h.1 _ mixedExpr_representedBy, h.2.2.2 _ mixedExpr_representedBy⟩

end IndexQuery
