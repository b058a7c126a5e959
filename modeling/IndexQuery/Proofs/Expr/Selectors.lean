/-
# The three resolvers of field names agree

A field name is taken from an expression in three places: a sort key or a reduction wants one name
(`resolveField`), a group wants its keys (`resolveFields`), a selection wants its fields (`projection`).
The three walk down on their own and look through different things.  The first two pass lambdas and all
operators with one operand; the third passes lambdas and conversions, and leaves what is below anything
else to the first.

Every expression is a core in a stack of shells, where a shell is a lambda or an operator with one operand
and a core is anything else (`Expr.exists_within`).  On that form the walks are equations.  Neither of the
first two sees the stack, and the third sees only whether a negation of either kind is in it
(`Expr.projection_within`).  So the resolvers can differ on one core alone, a record, since a record has no
single name; the main result, `fieldResolvers_agree`, says where they do.
-/
import IndexQuery.Expr.Field

namespace IndexQuery

/-! ## 1. Cores and shells -/

/-- A node with one expression below it. -/
inductive Shell where
  | lambda
  | unary (op : UnaryOp)
  deriving DecidableEq

namespace Shell

/-- The shell around an expression. -/
def around : Shell → Expr → Expr
  | lambda, e => .lambda e
  | unary op, e => .unary op e

/-- The shells that a selection does not look through. -/
def stopsSelection : Shell → Bool
  | unary .not | unary .negate => true
  | lambda | unary .convert => false

theorem any_stopsSelection (shells : List Shell) :
    shells.any stopsSelection = true ↔ unary .not ∈ shells ∨ unary .negate ∈ shells := by
  rw [List.any_eq_true]
  constructor
  · rintro ⟨shell, hmem, hstops⟩
    rcases shell with _ | _ | _ | _
    · cases hstops
    · exact .inl hmem
    · exact .inr hmem
    · cases hstops
  · rintro (hmem | hmem)
    · exact ⟨_, hmem, rfl⟩
    · exact ⟨_, hmem, rfl⟩

end Shell

namespace Expr

/-- The expression in a stack of shells, the first one outermost. -/
def within (core : Expr) (shells : List Shell) : Expr :=
  shells.foldr Shell.around core

/-- A node that is no shell. -/
def isCore : Expr → Bool
  | lambda _ | unary .. => false
  | _ => true

/-- **Every expression is a core in a stack of shells.** -/
theorem exists_within : (e : Expr) →
    ∃ (core : Expr) (shells : List Shell), core.isCore = true ∧ e = core.within shells
  | .lambda body => by
    obtain ⟨core, shells, hcore, hbody⟩ := exists_within body
    exact ⟨core, .lambda :: shells, hcore, congrArg Expr.lambda hbody⟩
  | .unary op operand => by
    obtain ⟨core, shells, hcore, hoperand⟩ := exists_within operand
    exact ⟨core, .unary op :: shells, hcore, congrArg (Expr.unary op) hoperand⟩
  | .binary op l r => ⟨.binary op l r, [], rfl, rfl⟩
  | .member name => ⟨.member name, [], rfl, rfl⟩
  | .constant value => ⟨.constant value, [], rfl, rfl⟩
  | .call name args => ⟨.call name args, [], rfl, rfl⟩
  | .record members => ⟨.record members, [], rfl, rfl⟩

/-! ## 2. The resolvers below a stack of shells -/

theorem resolveField_within (core : Expr) (shells : List Shell) :
    (core.within shells).resolveField = core.resolveField := by
  induction shells with
  | nil => rfl
  | cons shell shells ih => cases shell <;> exact ih

theorem resolveFields_within (core : Expr) (shells : List Shell) :
    (core.within shells).resolveFields = core.resolveFields := by
  induction shells with
  | nil => rfl
  | cons shell shells ih => cases shell <;> exact ih

/-- On a core the keys of a group are the fields of a selection. -/
theorem projection_of_isCore {core : Expr} (hcore : core.isCore = true) :
    core.projection = core.resolveFields := by
  cases core with
  | lambda _ | unary _ _ => cases hcore
  | _ => rfl

/-- **A selection sees of a stack only whether a negation is in it**: then it wants a single name. -/
theorem projection_within {core : Expr} (hcore : core.isCore = true) (shells : List Shell) :
    (core.within shells).projection
      = if shells.any Shell.stopsSelection then core.resolveField.map ([·])
        else core.resolveFields := by
  induction shells with
  | nil => exact projection_of_isCore hcore
  | cons shell shells ih =>
    -- A negation ends the look for a record, and from there the walk for one name goes on.
    rcases shell with _ | _ | _ | _
    · exact ih
    · exact congrArg (Except.map ([·])) (resolveField_within core shells)
    · exact congrArg (Except.map ([·])) (resolveField_within core shells)
    · exact ih

/-! ## 3. Records are the only difference -/

/-- What has one name is a selector of that one field. -/
theorem resolveFields_eq_map {core : Expr} (hcore : core.isCore = true)
    (hrecord : core.shape ≠ .record) : core.resolveFields = core.resolveField.map ([·]) := by
  cases core with
  | lambda _ | unary _ _ => cases hcore
  | record _ => exact absurd rfl hrecord
  | _ => rfl

/-- Nothing but a record distinguishes the keys of a group from a single name. -/
theorem resolveFields_of_map_eq_ok {core : Expr} (hcore : core.isCore = true) {fs : List String}
    (h : core.resolveField.map ([·]) = .ok fs) : core.resolveFields = .ok fs := by
  rw [resolveFields_eq_map hcore ?_, h]
  intro hshape
  cases core with
  | record _ => cases h
  | _ => cases hshape

/-- A core that names fields, but not one, is a record of them. -/
theorem eq_record_of_resolveFields {core : Expr} (hcore : core.isCore = true) {fs : List String}
    {err : CompileError} (hfields : core.resolveFields = .ok fs)
    (hfield : core.resolveField.map ([·]) = .error err) : core = .record fs := by
  by_cases hshape : core.shape = .record
  · cases core with
    | record members =>
      cases hfields
      rfl
    | _ => cases hshape
  · rw [resolveFields_eq_map hcore hshape, hfield] at hfields
    cases hfields

/-- A selector is a group's keys and not a selection's fields, exactly if it is a record below a
negation. -/
theorem resolveFields_without_projection_iff (e : Expr) (fs : List String) :
    (e.resolveFields = .ok fs ∧ ∃ err, e.projection = .error err) ↔
      ∃ shells, e = (record fs).within shells ∧
        (.unary .not ∈ shells ∨ .unary .negate ∈ shells) := by
  constructor
  · rintro ⟨hfields, err, hprojection⟩
    obtain ⟨core, shells, hcore, rfl⟩ := e.exists_within
    rw [resolveFields_within] at hfields
    rw [projection_within hcore] at hprojection
    split at hprojection
    · next hstops =>
      rw [eq_record_of_resolveFields hcore hfields hprojection]
      exact ⟨shells, rfl, (Shell.any_stopsSelection shells).mp hstops⟩
    · rw [hfields] at hprojection
      cases hprojection
  · rintro ⟨shells, rfl, hnegation⟩
    rw [resolveFields_within, projection_within rfl,
      if_pos ((Shell.any_stopsSelection shells).mpr hnegation)]
    exact ⟨rfl, _, rfl⟩

end Expr

/-! ## 4. Agreement -/

/-- **The three resolvers agree.**  What has one name is a selector of that one field everywhere, what a
selection accepts is for a group the same list, and a group accepts more in one case only: a record below
lambdas and operators with a negation of either kind among them. -/
theorem fieldResolvers_agree (e : Expr) :
    (∀ f, e.resolveField = .ok f → e.resolveFields = .ok [f] ∧ e.projection = .ok [f]) ∧
    (∀ fs, e.projection = .ok fs → e.resolveFields = .ok fs) ∧
    ∀ fs, (e.resolveFields = .ok fs ∧ ∃ err, e.projection = .error err) ↔
      ∃ shells, e = (Expr.record fs).within shells ∧
        (.unary .not ∈ shells ∨ .unary .negate ∈ shells) := by
  refine ⟨fun f hf => ?_, fun fs hfs => ?_, e.resolveFields_without_projection_iff⟩
  · obtain ⟨core, shells, hcore, rfl⟩ := e.exists_within
    rw [Expr.resolveField_within] at hf
    have hone : core.resolveField.map ([·]) = .ok [f] := by
      rw [hf]
      rfl
    have hfields := Expr.resolveFields_of_map_eq_ok hcore hone
    rw [Expr.resolveFields_within, Expr.projection_within hcore, hone, hfields, ite_self]
    exact ⟨rfl, rfl⟩
  · obtain ⟨core, shells, hcore, rfl⟩ := e.exists_within
    rw [Expr.projection_within hcore] at hfs
    rw [Expr.resolveFields_within]
    split at hfs
    · exact Expr.resolveFields_of_map_eq_ok hcore hfs
    · exact hfs

/-- An indexed access below a negation. -/
def colorAccess : Expr :=
  (Expr.call "Index" [.member "attrs", .constant (.str "color")]).within [.lambda, .unary .negate]

/-- A record with a name that comes twice, in a stack of shells. -/
def cityKeys (shells : List Shell) : Expr :=
  (Expr.record ["city", "age", "city"]).within shells

theorem fieldResolvers_agree_cityKeys :
    (colorAccess.resolveField = .ok "color" ∧
      colorAccess.resolveFields = .ok ["color"] ∧ colorAccess.projection = .ok ["color"]) ∧
    ((cityKeys [.lambda, .unary .convert]).projection = .ok ["city", "age", "city"] ∧
      (cityKeys [.lambda, .unary .convert]).resolveFields = .ok ["city", "age", "city"]) ∧
    (cityKeys [.unary .not, .lambda]).resolveFields = .ok ["city", "age", "city"] ∧
      ∃ err, (cityKeys [.unary .not, .lambda]).projection = .error err := by
  have hcolor : colorAccess.resolveField = .ok "color" := rfl
  have hkeys : (cityKeys [.lambda, .unary .convert]).projection = .ok ["city", "age", "city"] := rfl
  refine ⟨⟨hcolor, ?_⟩, ⟨hkeys, ?_⟩, ?_⟩
  · exact (fieldResolvers_agree colorAccess).1 "color" hcolor
  · exact (fieldResolvers_agree _).2.1 _ hkeys
  · exact ((fieldResolvers_agree _).2.2 _).mpr ⟨[.unary .not, .lambda], rfl, .inl (by decide)⟩

end IndexQuery
