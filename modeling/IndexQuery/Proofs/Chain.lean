/-
# Chains

What both compiles have in common.  A chain on a root is the list of its stages: the compilers see
them in reverse and then those of the root, which has none unless it is a call itself
(`Expr.stages_eq_nil_iff`).  And what a compile gives is what its body gives, whatever the session
holds (`observed_fst`).
-/
import IndexQuery.Expr.Stage
import IndexQuery.Plan.Basic
import IndexQuery.Session

namespace IndexQuery

/-! ## 1. The stages of a chain -/

namespace Expr

theorem stages_chainAll (root : Expr) (ss : List Stage) :
    (root.chainAll ss).stages = ss.reverse ++ root.stages := by
  induction ss generalizing root with
  | nil => rfl
  | cons s ss ih =>
    have hchain : root.chainAll (s :: ss) = (root.chain s.name s.args).chainAll ss := rfl
    rw [hchain, ih]
    simp [Expr.chain, Expr.stages]

theorem stages_eq_nil_iff (e : Expr) : e.stages = [] ↔ e.shape ≠ .call := by
  cases e with
  | call name args => cases args <;> simp [stages, shape]
  | _ => simp [stages, shape]

/-- The stages of a chain on a root that is no call. -/
theorem stages_chainAll_of_root {root : Expr} (hroot : root.shape ≠ .call) (ss : List Stage) :
    (root.chainAll ss).stages = ss.reverse := by
  rw [stages_chainAll, (stages_eq_nil_iff root).mpr hroot, List.append_nil]

theorem shape_chainAll (root : Expr) {ss : List Stage} (hne : ss ≠ []) :
    (root.chainAll ss).shape = .call := by
  induction ss generalizing root with
  | nil => exact absurd rfl hne
  | cons s ss ih =>
    cases ss with
    | nil => rfl
    | cons t ss => exact ih (root.chain s.name s.args) (List.cons_ne_nil t ss)

/-- A chain is no bare filter. -/
theorem shape_chainAll_ne_lambda {root : Expr} {ss : List Stage}
    (h : ss = [] → root.shape ≠ .lambda) : (root.chainAll ss).shape ≠ .lambda := by
  by_cases hss : ss = []
  · subst hss
    exact h rfl
  · rw [shape_chainAll root hss]
    decide

end Expr

/-! ## 2. Arguments of a stage -/

namespace Stage

theorem head?_args_of_arg {s : Stage} {e : Expr} (h : s.arg 0 = .ok e) :
    s.args.head? = some e := by
  unfold arg at h
  split at h
  · next e' he =>
    cases h
    rw [List.head?_eq_getElem?, he]
  · cases h

/-- The sort key that a sorting stage names. -/
def sortKey (s : Stage) : Compiled SortKey := do
  let field ← (← s.arg 0).resolveField
  return ⟨field, if s.name = "OrderBy" then .asc else .desc⟩

theorem sortKey_eq_ok {s : Stage} {e : Expr} {field : String} (he : s.arg 0 = .ok e)
    (hfield : e.resolveField = .ok field) :
    s.sortKey = .ok ⟨field, if s.name = "OrderBy" then .asc else .desc⟩ := by
  simp only [sortKey, he, hfield, bind, Except.bind]
  rfl

end Stage

/-- The stages that sort. -/
def sortNames : List String := ["OrderBy", "OrderByDescending"]

/-! ## 3. What a compile gives -/

/-- What a compile gives does not depend on the scope around it. -/
theorem observed_fst {α : Type} (name : String) (counted : Counter) (summary : α → LogFields)
    (index : String) (body : String → Session → Compiled α × Session) (s : Session) :
    (observed name counted summary (some index) body s).1
      = (body index { s with journal := (Scope.start name [("index", index)] s.journal).2 }).1 := by
  simp only [observed]
  split <;> simp [*]

end IndexQuery
