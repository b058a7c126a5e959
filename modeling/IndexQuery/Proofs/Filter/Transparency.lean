/-
# Conversions inside predicates

A conversion changes no value, and inside a predicate it may be put around any node: a predicate, a
field, a constant, an argument, the body of a lambda.  The main result is that this never shows
(`filterText_of_converted`): with the conversions and without them a predicate compiles to the same text,
or not at all.

There is one exception.  A call that stands for a field is named by its first constant argument, and a
constant in a conversion is no constant argument any more.  So what may be converted depends on what a
node is used for.  `Role` says that, and the relation `Converted role e e'` puts any number of conversions
around any nodes of `e` but such a constant.

Whether an operand is a comparison itself is asked without a look below conversions, so putting one there
changes the branch that compiles the operator.  It does not change the outcome, since neither branch
compiles such an operand (`Filter.toOption_build_comparison`).
-/
import IndexQuery.Proofs.Filter.Meaning

namespace IndexQuery

/-! ## 1. What a node is used for -/

/-- What a node of a predicate is used for: `field` and `geoField` are resolved to a field, the second
one below lambdas too, and `naming` is an argument of a call that is resolved so. -/
inductive Role where
  | predicate | field | geoField | naming | other
  deriving DecidableEq

/-- A list constant below any conversions. -/
def Expr.isList : Expr → Bool
  | constant (.arr _) => true
  | unary .convert operand => operand.isList
  | _ => false

/-- **The roles of the arguments of a predicate call.** -/
def argumentRoles (name : String) (args : List Expr) : List Role :=
  match name, args with
  | "Contains", [target, _] => if target.isList then [.other, .field] else [.field, .other]
  | "StartsWith", [_, _] | "EndsWith", [_, _] | "Equals", [_, _] => [.field, .other]
  | "GeoFilter", [_, _, _, _, _] => [.geoField, .other, .other, .other, .other]
  | _, _ => []

namespace Role

/-- The role of the operand of an operator. -/
def operand : Role → UnaryOp → Role
  | predicate, .not | predicate, .convert => predicate
  | field, .convert => field
  | geoField, .convert => geoField
  | _, _ => other

/-- The role of the body of a lambda. -/
def body : Role → Role
  | predicate => predicate
  | geoField => geoField
  | _ => other

/-- The role of the left operand, which is a field unless the right one makes the operator join
predicates. -/
def left (role : Role) (op : BinaryOp) (right : Expr) : Role :=
  if role ≠ predicate then other
  else if op.isLogical then predicate
  else if right.isBinary then other
  else field

/-- The role of the right operand. -/
def right (role : Role) (op : BinaryOp) : Role :=
  if role = predicate ∧ op.isLogical then predicate else other

/-- The role of an argument by its place. -/
def argument (role : Role) (name : String) (args : List Expr) (i : Nat) : Role :=
  match role with
  | predicate => ((argumentRoles name args)[i]?).getD other
  | field | geoField => naming
  | _ => other

end Role

/-- **An expression with conversions put around some of its nodes.**  All nodes may have them but a
constant argument of a call that stands for a field. -/
inductive Converted : Role → Expr → Expr → Prop
  | convert {role : Role} {e e' : Expr} :
      (role = .naming → e.shape ≠ .constant) → Converted role e e' →
      Converted role e (.unary .convert e')
  | constant (role : Role) (value : Json) : Converted role (.constant value) (.constant value)
  | member (role : Role) (name : String) : Converted role (.member name) (.member name)
  | record (role : Role) (members : List String) : Converted role (.record members) (.record members)
  | lambda {role : Role} {e e' : Expr} :
      Converted role.body e e' → Converted role (.lambda e) (.lambda e')
  | unary {role : Role} {op : UnaryOp} {e e' : Expr} :
      Converted (role.operand op) e e' → Converted role (.unary op e) (.unary op e')
  | binary {role : Role} {op : BinaryOp} {l l' r r' : Expr} :
      Converted (role.left op r) l l' → Converted (role.right op) r r' →
      Converted role (.binary op l r) (.binary op l' r')
  | call {role : Role} {name : String} {args args' : List Expr} :
      args.length = args'.length →
      (∀ i a a', args[i]? = some a → args'[i]? = some a' →
        Converted (role.argument name args i) a a') →
      Converted role (.call name args) (.call name args')

/-- Conversions in a call of two arguments. -/
theorem Converted.pair {role : Role} {name : String} {a b a' b' : Expr}
    (ha : Converted (role.argument name [a, b] 0) a a')
    (hb : Converted (role.argument name [a, b] 1) b b') :
    Converted role (.call name [a, b]) (.call name [a', b']) := by
  refine .call rfl fun i c c' hc hc' => ?_
  rcases i with _ | _ | i
  · obtain rfl : a = c := by simpa using hc
    obtain rfl : a' = c' := by simpa using hc'
    exact ha
  · obtain rfl : b = c := by simpa using hc
    obtain rfl : b' = c' := by simpa using hc'
    exact hb
  · simp at hc

/-! ## 2. What conversions leave as it is

What has to be shown of a node follows from its role: a predicate compiles to the same, a field is resolved
to the same name, and an argument that names a field is the same constant or none. -/

/-- What conversions leave as it is, by the role of a node. -/
def Role.Agree (s : Schema) : Role → Expr → Expr → Prop
  | predicate, e, e' => ∀ pos, (Filter.build s pos e).toOption = (Filter.build s pos e').toOption
  | field, e, e' => e.fieldOperand.toOption = e'.fieldOperand.toOption
  | geoField, e, e' => e.peel.fieldOperand.toOption = e'.peel.fieldOperand.toOption
  | naming, e, e' => e.constant? = e'.constant?
  | other, _, _ => True

/-- The same constant, if one. -/
def SameConstant (e e' : Expr) : Prop :=
  e.constantOperand.toOption = e'.constantOperand.toOption

/-! ## 3. Calls -/

theorem Expr.isList_eq_true_iff {e : Expr} :
    e.isList = true ↔ ∃ vs, e.constantOperand = .ok (.arr vs) := by
  fun_induction isList e with
  | case1 vs => simp [constantOperand]
  | case2 operand ih => rw [ih, constantOperand]
  | case3 e hlist hconvert =>
    constructor
    · intro h
      cases h
    · rintro ⟨vs, h⟩
      rcases constantOperand_eq_ok.mp h with _ | _
      · exact absurd rfl (hlist vs)
      · exact absurd rfl (hconvert _)

theorem SameConstant.isList_eq {e e' : Expr} (h : SameConstant e e') : e.isList = e'.isList := by
  rw [Bool.eq_iff_iff, Expr.isList_eq_true_iff, Expr.isList_eq_true_iff]
  refine exists_congr fun vs => ?_
  rw [← Compiled.toOption_eq_some_iff, ← Compiled.toOption_eq_some_iff, h]

/-- Lists of one length whose elements are related place by place. -/
def Placewise (R : Nat → Expr → Expr → Prop) (args args' : List Expr) : Prop :=
  args.length = args'.length ∧ ∀ i a a', args[i]? = some a → args'[i]? = some a' → R i a a'

theorem Placewise.nil {R : Nat → Expr → Expr → Prop} {args' : List Expr}
    (h : Placewise R [] args') : args' = [] :=
  List.length_eq_zero_iff.mp h.1.symm

theorem Placewise.cons {R : Nat → Expr → Expr → Prop} {a : Expr} {args args' : List Expr}
    (h : Placewise R (a :: args) args') :
    ∃ b args'', args' = b :: args'' ∧ R 0 a b ∧ Placewise (fun i => R (i + 1)) args args'' := by
  obtain ⟨hlength, hargs⟩ := h
  obtain ⟨b, args'', rfl⟩ := List.exists_cons_of_length_eq_add_one hlength.symm
  refine ⟨b, args'', rfl, hargs 0 a b rfl rfl, by simpa using hlength, fun i c d hc hd => ?_⟩
  exact hargs (i + 1) c d (by simpa using hc) (by simpa using hd)

/-- A call that stands for a field is named by the constants among its arguments. -/
theorem fieldOperand_call_congr {name : String} {args args' : List Expr}
    (h : Placewise (fun _ a a' => a.constant? = a'.constant?) args args') :
    (Expr.call name args).fieldOperand = (Expr.call name args').fieldOperand := by
  have hmap : args.map Expr.constant? = args'.map Expr.constant? := by
    refine List.ext_getElem (by simpa using h.1) fun i hi hi' => ?_
    rw [List.length_map] at hi hi'
    rw [List.getElem_map, List.getElem_map]
    exact h.2 i _ _ (List.getElem?_eq_getElem hi) (List.getElem?_eq_getElem hi')
  have hfind : args.findSome? Expr.constant? = args'.findSome? Expr.constant? := by
    have h := congrArg (List.findSome? id) hmap
    rwa [List.findSome?_map, List.findSome?_map] at h
  simp only [Expr.fieldOperand, Expr.resolveField, hfind]

namespace Filter

variable {s : Schema}

theorem toOption_comparison_congr (op : BinaryOp) {l l' r r' : Expr}
    (hl : l.fieldOperand.toOption = l'.fieldOperand.toOption) (hr : SameConstant r r') :
    (comparison s op l r).toOption = (comparison s op l' r').toOption :=
  Compiled.toOption_bind_congr hl fun _ => Compiled.toOption_bind_congr hr fun _ => rfl

/-- What is a comparison itself is no constant to compare with. -/
theorem toOption_comparison_of_isBinary {op : BinaryOp} {l r r' : Expr} (h : r.isBinary = true)
    (hr : SameConstant r r') : (comparison s op l r').toOption = none := by
  have hnone : r'.constantOperand.toOption = none := by
    rw [← hr]
    cases r with
    | binary op l r => rfl
    | _ => cases h
  rw [comparison, Compiled.toOption_bind]
  simp only [Compiled.toOption_bind, hnone, Option.bind_none, Option.bind_fun_none]

theorem toOption_numberArg_congr (context : String) {e e' : Expr} (h : SameConstant e e') :
    (numberArg context e).toOption = (numberArg context e').toOption :=
  Compiled.toOption_bind_congr h fun _ => rfl

theorem toOption_geoRadius_congr {f x y r u f' x' y' r' u' : Expr}
    (hf : f.peel.fieldOperand.toOption = f'.peel.fieldOperand.toOption) (hx : SameConstant x x')
    (hy : SameConstant y y') (hr : SameConstant r r') (hu : SameConstant u u') :
    (geoRadius s [f, x, y, r, u]).toOption = (geoRadius s [f', x', y', r', u']).toOption := by
  refine Compiled.toOption_bind_congr hf fun field => Compiled.toOption_bind_congr rfl fun kind => ?_
  split
  · rfl
  · refine Compiled.toOption_bind_congr hu fun name => ?_
    simp only
    split
    · rfl
    · refine Compiled.toOption_bind_congr (toOption_numberArg_congr _ hx) fun x => ?_
      refine Compiled.toOption_bind_congr (toOption_numberArg_congr _ hy) fun y => ?_
      exact Compiled.toOption_bind_congr (toOption_numberArg_congr _ hr) fun r => rfl

theorem toOption_geoRadius {args : List Expr} (h : args.length ≠ 5) :
    (geoRadius s args).toOption = none := by
  unfold geoRadius
  split
  · exact absurd rfl h
  · rfl

/-- A radius agrees if its five arguments do. -/
theorem toOption_geoArgs_congr {args args' : List Expr}
    (h : Placewise (fun i a a' => (Role.predicate.argument "GeoFilter" args i).Agree s a a' ∧
      SameConstant a a') args args') :
    (geoRadius s args).toOption = (geoRadius s args').toOption := by
  by_cases hlength : args.length = 5
  · obtain ⟨f, x, y, r, u, rfl⟩ : ∃ f x y r u, args = [f, x, y, r, u] := by
      rcases args with _ | ⟨f, _ | ⟨x, _ | ⟨y, _ | ⟨r, _ | ⟨u, _ | ⟨v, rest⟩⟩⟩⟩⟩⟩ <;>
        simp at hlength
      exact ⟨f, x, y, r, u, rfl⟩
    obtain ⟨f', rest, rfl, hf, hrest⟩ := h.cons
    obtain ⟨x', rest, rfl, hx, hrest⟩ := hrest.cons
    obtain ⟨y', rest, rfl, hy, hrest⟩ := hrest.cons
    obtain ⟨r', rest, rfl, hr, hrest⟩ := hrest.cons
    obtain ⟨u', rest, rfl, hu, hrest⟩ := hrest.cons
    obtain rfl := hrest.nil
    exact toOption_geoRadius_congr hf.1 hx.2 hy.2 hr.2 hu.2
  · have hlength' : args'.length ≠ 5 := h.1 ▸ hlength
    rw [toOption_geoRadius hlength, toOption_geoRadius hlength']

theorem toOption_affix_congr (test : FieldTest) {a b a' b' : Expr}
    (ha : a.fieldOperand.toOption = a'.fieldOperand.toOption) (hb : SameConstant b b') :
    (affix s test [a, b]).toOption = (affix s test [a', b']).toOption := by
  change (a.fieldOperand >>= _).toOption = (a'.fieldOperand >>= _).toOption
  exact Compiled.toOption_bind_congr ha fun _ => Compiled.toOption_bind_congr hb fun _ => rfl

theorem toOption_equals_congr {a b a' b' : Expr}
    (ha : a.fieldOperand.toOption = a'.fieldOperand.toOption) (hb : SameConstant b b') :
    (equals s [a, b]).toOption = (equals s [a', b']).toOption := by
  change (a.fieldOperand >>= _).toOption = (a'.fieldOperand >>= _).toOption
  exact Compiled.toOption_bind_congr ha fun _ => Compiled.toOption_bind_congr rfl fun _ =>
    Compiled.toOption_bind_congr hb fun _ => rfl

theorem contains_of_isList {a : Expr} {vs : List Json} (h : a.constantOperand = .ok (.arr vs))
    (b : Expr) : contains s [a, b] = b.fieldOperand >>= fun field => membership s field vs := by
  simp only [contains, twoArgs, bind, Except.bind, h]

theorem contains_of_not_isList {a : Expr} (h : a.isList = false) (b : Expr) :
    contains s [a, b] = containment s a b := by
  simp only [contains, twoArgs, bind, Except.bind]
  split
  · next vs hvs => simp [Expr.isList_eq_true_iff.mpr ⟨vs, hvs⟩] at h
  · rfl

theorem toOption_contains_congr {a b a' b' : Expr} (ha : SameConstant a a') (hb : SameConstant b b')
    (hlist : a.isList = true → b.fieldOperand.toOption = b'.fieldOperand.toOption)
    (hfield : a.isList = false → a.fieldOperand.toOption = a'.fieldOperand.toOption) :
    (contains s [a, b]).toOption = (contains s [a', b']).toOption := by
  cases h : a.isList with
  | true =>
    obtain ⟨vs, hvs⟩ := Expr.isList_eq_true_iff.mp h
    have hvs' : a'.constantOperand = .ok (.arr vs) := by
      rw [← Compiled.toOption_eq_some_iff, ← ha, hvs]
      rfl
    rw [contains_of_isList hvs, contains_of_isList hvs']
    exact Compiled.toOption_bind_congr (hlist h) fun _ => rfl
  | false =>
    rw [contains_of_not_isList h, contains_of_not_isList (ha.isList_eq ▸ h)]
    exact Compiled.toOption_bind_congr (hfield h) fun _ => Compiled.toOption_bind_congr hb fun _ => rfl

theorem toOption_twoArgs (name : String) {args : List Expr} (h : args.length ≠ 2) :
    (twoArgs name args).toOption = none := by
  unfold twoArgs
  split
  · exact absurd rfl h
  · rfl

/-- Calls of two arguments agree if they do on two arguments. -/
theorem toOption_twoArgs_congr {R : Nat → Expr → Expr → Prop} {args args' : List Expr}
    (h : Placewise R args args') (name : String) (f : Expr × Expr → Compiled Filter)
    (hpair : ∀ {a b a' b'}, args = [a, b] → R 0 a a' → R 1 b b' →
      (f (a, b)).toOption = (f (a', b')).toOption) :
    (twoArgs name args >>= f).toOption = (twoArgs name args' >>= f).toOption := by
  by_cases hlength : args.length = 2
  · obtain ⟨a, b, rfl⟩ := List.length_eq_two.mp hlength
    obtain ⟨a', rest, rfl, ha, hrest⟩ := h.cons
    obtain ⟨b', rest, rfl, hb, hrest⟩ := hrest.cons
    obtain rfl := hrest.nil
    exact hpair rfl ha hb
  · have hlength' : args'.length ≠ 2 := h.1 ▸ hlength
    rw [Compiled.toOption_bind, Compiled.toOption_bind, toOption_twoArgs name hlength,
      toOption_twoArgs name hlength']

/-- **Calls agree if their arguments do**, each in its role. -/
theorem toOption_ofCall_congr {name : String} {args args' : List Expr}
    (h : Placewise (fun i a a' => (Role.predicate.argument name args i).Agree s a a' ∧
      SameConstant a a') args args') :
    (ofCall s name args).toOption = (ofCall s name args').toOption := by
  unfold ofCall
  split
  · refine toOption_twoArgs_congr h _ _ fun {a b a' b'} hargs ha hb => ?_
    subst hargs
    refine toOption_contains_congr ha.2 hb.2 (fun hlist => ?_) fun hlist => ?_
    · have hrole : Role.predicate.argument "Contains" [a, b] 1 = .field := by
        simp [Role.argument, argumentRoles, hlist]
      rw [hrole] at hb
      exact hb.1
    · have hrole : Role.predicate.argument "Contains" [a, b] 0 = .field := by
        simp [Role.argument, argumentRoles, hlist]
      rw [hrole] at ha
      exact ha.1
  · refine toOption_twoArgs_congr h _ _ fun hargs ha hb => ?_
    subst hargs
    exact toOption_affix_congr .startsWith ha.1 hb.2
  · refine toOption_twoArgs_congr h _ _ fun hargs ha hb => ?_
    subst hargs
    exact toOption_affix_congr .endsWith ha.1 hb.2
  · refine toOption_twoArgs_congr h _ _ fun hargs ha hb => ?_
    subst hargs
    exact toOption_equals_congr ha.1 hb.2
  · rw [Compiled.toOption_map, Compiled.toOption_map, toOption_geoArgs_congr h]
  · rfl

/-- **The guard on the operands decides nothing**, so it does not matter what it sees. -/
theorem toOption_build_comparison {op : BinaryOp} (hop : op.isLogical = false) (pos : Position)
    (l r : Expr) :
    (build s pos (.binary op l r)).toOption = (comparison s op l r).toOption.map pos.place := by
  rw [← Compiled.toOption_map]
  refine Option.ext fun f => ?_
  rw [Compiled.toOption_eq_some_iff, Compiled.toOption_eq_some_iff, Compiled.map_eq_ok]
  exact build_comparison_eq_ok (by simp [hop])

end Filter

/-! ## 4. Predicates

The rules of `Converted` are followed one by one; each asks of a node what the roles of its parts give. -/

theorem Role.Agree.refl (s : Schema) (role : Role) (e : Expr) : role.Agree s e e := by
  cases role with
  | predicate => exact fun _ => rfl
  | other => trivial
  | field | geoField | naming => rfl

/-- One more conversion makes no difference. -/
theorem Role.Agree.convert {s : Schema} {role : Role} {e e' : Expr}
    (hrole : role = .naming → e.shape ≠ .constant) (h : role.Agree s e e') :
    role.Agree s e (.unary .convert e') := by
  cases role with
  | predicate => exact h
  | field | geoField => exact h
  | other => trivial
  | naming =>
    have hnone : e.constant? = none := by
      cases e with
      | constant value => exact absurd rfl (hrole rfl)
      | _ => rfl
    exact hnone

theorem Role.Agree.lambda {s : Schema} {role : Role} {e e' : Expr} (h : role.body.Agree s e e') :
    role.Agree s (.lambda e) (.lambda e') := by
  cases role with
  | predicate => exact h
  | geoField => exact h
  | other => trivial
  | field | naming => rfl

theorem Role.Agree.unary {s : Schema} {role : Role} {op : UnaryOp} {e e' : Expr}
    (h : (role.operand op).Agree s e e') : role.Agree s (.unary op e) (.unary op e') := by
  cases role with
  | predicate =>
    intro pos
    cases op with
    | not =>
      rw [Filter.build, Filter.build, Compiled.toOption_map, Compiled.toOption_map, h .alone]
    | convert => exact h pos
    | negate => rfl
  | field =>
    cases op with
    | convert => exact h
    | not | negate => rfl
  | geoField =>
    cases op with
    | convert => exact h
    | not | negate => rfl
  | naming => rfl
  | other => trivial

theorem Role.Agree.binary {s : Schema} {role : Role} {op : BinaryOp} {l l' r r' : Expr}
    (hl : (role.left op r).Agree s l l') (hr : (role.right op).Agree s r r')
    (hconstant : SameConstant r r') : role.Agree s (.binary op l r) (.binary op l' r') := by
  cases role with
  | predicate =>
    intro pos
    cases hop : op.isLogical with
    | true =>
      have hl' : Role.predicate.Agree s l l' := by simpa [Role.left, hop] using hl
      have hr' : Role.predicate.Agree s r r' := by simpa [Role.right, hop] using hr
      rw [Filter.build, Filter.build, if_pos (by simp [hop]), if_pos (by simp [hop])]
      exact Compiled.toOption_bind_congr rfl fun join =>
        Compiled.toOption_bind_congr (hl' .operand) fun f =>
          Compiled.toOption_bind_congr (hr' .operand) fun g => rfl
    | false =>
      rw [Filter.toOption_build_comparison hop, Filter.toOption_build_comparison hop]
      cases hbinary : r.isBinary with
      | true =>
        -- no constant on the right, with conversions or without
        rw [Filter.toOption_comparison_of_isBinary hbinary rfl,
          Filter.toOption_comparison_of_isBinary hbinary hconstant]
      | false =>
        have hl' : Role.field.Agree s l l' := by simpa [Role.left, hop, hbinary] using hl
        rw [Filter.toOption_comparison_congr op hl' hconstant]
  | field | geoField | naming => rfl
  | other => trivial

theorem Role.Agree.call {s : Schema} {role : Role} {name : String} {args args' : List Expr}
    (h : Placewise (fun i a a' => (role.argument name args i).Agree s a a' ∧ SameConstant a a')
      args args') :
    role.Agree s (.call name args) (.call name args') := by
  cases role with
  | predicate => exact fun _ => Filter.toOption_ofCall_congr h
  | field | geoField =>
    have hnames : Placewise (fun _ a a' => a.constant? = a'.constant?) args args' :=
      ⟨h.1, fun i a a' ha ha' => (h.2 i a a' ha ha').1⟩
    exact congrArg Except.toOption (fieldOperand_call_congr hnames)
  | naming => rfl
  | other => trivial

/-- **What conversions leave as it is.**  By induction on where they were put: each kind of node agrees
in its role if its parts agree in theirs. -/
theorem Converted.agree {role : Role} {e e' : Expr} (s : Schema) (h : Converted role e e') :
    role.Agree s e e' ∧ SameConstant e e' := by
  induction h with
  | convert hrole _ ih => exact ⟨ih.1.convert hrole, ih.2⟩
  | constant role value => exact ⟨.refl s role _, rfl⟩
  | member role name => exact ⟨.refl s role _, rfl⟩
  | record role members => exact ⟨.refl s role _, rfl⟩
  | lambda _ ih => exact ⟨ih.1.lambda, rfl⟩
  | @unary role op e e' _ ih =>
    refine ⟨ih.1.unary, ?_⟩
    cases op with
    | convert => exact ih.2
    | not | negate => rfl
  | binary _ _ ihl ihr => exact ⟨ihl.1.binary ihr.1 ihr.2, rfl⟩
  | call hlength _ ih => exact ⟨.call ⟨hlength, ih⟩, rfl⟩

/-- **Conversions inside a predicate do not show.**  With them and without them it compiles to the same
text, or it does not compile. -/
theorem filterText_of_converted (s : Schema) {e e' : Expr} (h : Converted .predicate e e') :
    (∃ t, filterText s e = .ok t ∧ filterText s e' = .ok t) ∨
      ∃ err err', filterText s e = .error err ∧ filterText s e' = .error err' := by
  apply Compiled.ok_or_error_of_toOption_eq
  have hbuild : (Filter.build s .alone e).toOption = (Filter.build s .alone e').toOption :=
    (h.agree s).1 .alone
  rw [filterText, filterText, Compiled.toOption_map, Compiled.toOption_map, Filter.ofExpr,
    Filter.ofExpr, hbuild]

-- around the constant that names a field a conversion does show
example :
    filterText sampleSchema (.binary .gt (.call "Field" [.constant (.str "age")]) (.constant (.bool true)))
      = .ok "(@age:[(1 inf])" ∧
    filterText sampleSchema (.binary .gt (.call "Field" [.unary .convert (.constant (.str "age"))])
        (.constant (.bool true)))
      = .error (.unresolvableField .callWithoutConstant) :=
  ⟨by rfl, by rfl⟩

/-- A predicate with a field that is named by a call, and a list of values. -/
def unconverted : Expr :=
  .lambda (.binary .and
    (.binary .gt (.call "Field" [.member "column", .constant (.str "age")]) (.constant (.bool true)))
    (.call "Contains" [.constant (.arr [.str "a", .str "b"]), .member "name"]))

/-- The same with conversions around all nodes that may have them. -/
def fullyConverted : Expr :=
  .unary .convert (.lambda (.unary .convert (.binary .and
    (.unary .convert (.binary .gt
      (.unary .convert (.call "Field" [.unary .convert (.member "column"), .constant (.str "age")]))
      (.unary .convert (.unary .convert (.constant (.bool true))))))
    (.unary .convert (.call "Contains"
      [.unary .convert (.constant (.arr [.str "a", .str "b"])), .unary .convert (.member "name")])))))

theorem filterText_of_converted_fullyConverted :
    Converted .predicate unconverted fullyConverted ∧
    filterText sampleSchema unconverted = .ok "(@age:[(1 inf] @name:\x7ba|b\x7d)" ∧
    filterText sampleSchema fullyConverted = .ok "(@age:[(1 inf] @name:\x7ba|b\x7d)" := by
  have hconverted : Converted .predicate unconverted fullyConverted :=
    .convert (by decide) (.lambda (.convert (by decide) (.binary
      (.convert (by decide) (.binary
        (.convert (by decide) (.pair (.convert (by decide) (.member _ _)) (.constant _ _)))
        (.convert (by decide) (.convert (by decide) (.constant _ _)))))
      (.convert (by decide)
        (.pair (.convert (by decide) (.constant _ _)) (.convert (by decide) (.member _ _)))))))
  have hplain : filterText sampleSchema unconverted = .ok "(@age:[(1 inf] @name:\x7ba|b\x7d)" := by rfl
  rcases filterText_of_converted sampleSchema hconverted with ⟨t, ht, ht'⟩ | ⟨err, _, herr, -⟩
  · rw [hplain] at ht
    cases ht
    exact ⟨hconverted, hplain, ht'⟩
  · rw [hplain] at herr
    cases herr

end IndexQuery
