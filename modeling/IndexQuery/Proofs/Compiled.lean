/-
# Compiles that succeed

A compile runs its steps one after another and stops at the first error.  So it succeeds exactly if
each step does, and the lemmas here take such a run apart step by step.
-/
import IndexQuery.Error
import Mathlib.Data.List.Forall2

namespace IndexQuery

namespace Compiled

variable {α β : Type}

theorem bind_eq_ok {x : Compiled α} {f : α → Compiled β} {b : β} :
    (x >>= f) = .ok b ↔ ∃ a, x = .ok a ∧ f a = .ok b := by
  constructor
  · intro h
    cases x with
    | error e => cases h
    | ok a => exact ⟨a, rfl, h⟩
  · rintro ⟨a, rfl, h⟩
    exact h

theorem map_eq_ok {x : Compiled α} {f : α → β} {b : β} :
    x.map f = .ok b ↔ ∃ a, x = .ok a ∧ f a = b := by
  constructor
  · intro h
    cases x with
    | error e => cases h
    | ok a =>
      cases h
      exact ⟨a, rfl, rfl⟩
  · rintro ⟨a, rfl, rfl⟩
    rfl

/-- What has to be there, is there. -/
theorem elim_eq_ok {o : Option α} {e : CompileError} {f : α → Compiled β} {b : β} :
    o.elim (.error e) f = .ok b ↔ ∃ a, o = some a ∧ f a = .ok b := by
  cases o <;> simp

/-- A list compiles element by element. -/
theorem mapM_eq_ok {f : α → Compiled β} {xs : List α} {ys : List β} :
    xs.mapM f = .ok ys ↔ List.Forall₂ (fun x y => f x = .ok y) xs ys := by
  induction xs generalizing ys with
  | nil =>
    rw [List.mapM_nil, List.forall₂_nil_left_iff]
    constructor
    · intro h
      cases h
      rfl
    · rintro rfl
      rfl
  | cons x xs ih =>
    rw [List.mapM_cons, bind_eq_ok, List.forall₂_cons_left_iff]
    constructor
    · rintro ⟨y, hy, h⟩
      obtain ⟨ys, hys, h⟩ := bind_eq_ok.mp h
      cases h
      exact ⟨y, ys, hy, ih.mp hys, rfl⟩
    · rintro ⟨y, ys, hy, hys, rfl⟩
      exact ⟨y, hy, bind_eq_ok.mpr ⟨ys, ih.mpr hys, rfl⟩⟩

theorem exists_forall₂_iff {f : α → Compiled β} {xs : List α} :
    (∃ ys, List.Forall₂ (fun x y => f x = .ok y) xs ys) ↔ ∀ x ∈ xs, ∃ y, f x = .ok y := by
  induction xs with
  | nil => simp
  | cons x xs ih =>
    simp only [List.forall₂_cons_left_iff, List.forall_mem_cons, ← ih]
    constructor
    · rintro ⟨_, y, ys, hy, hys, rfl⟩
      exact ⟨⟨y, hy⟩, ys, hys⟩
    · rintro ⟨⟨y, hy⟩, ys, hys⟩
      exact ⟨y :: ys, y, ys, hy, hys, rfl⟩

/-! ## The outcome of a compile, whatever its error

Two expressions may be rejected for different reasons and still be the same to whoever asks only what is
accepted.  `toOption` forgets the reason. -/

theorem toOption_bind (x : Compiled α) (f : α → Compiled β) :
    (x >>= f).toOption = x.toOption.bind fun a => (f a).toOption := by
  cases x <;> rfl

theorem toOption_bind_congr {x y : Compiled α} {f g : α → Compiled β}
    (hx : x.toOption = y.toOption) (hf : ∀ a, (f a).toOption = (g a).toOption) :
    (x >>= f).toOption = (y >>= g).toOption := by
  rw [toOption_bind, toOption_bind, hx]
  simp only [hf]

theorem toOption_map (x : Compiled α) (f : α → β) : (x.map f).toOption = x.toOption.map f := by
  cases x <;> rfl

theorem toOption_eq_some_iff {x : Compiled α} {a : α} : x.toOption = some a ↔ x = .ok a := by
  cases x <;> simp [Except.toOption]

/-- Two compiles with one outcome succeed with the same, or fail both. -/
theorem ok_or_error_of_toOption_eq {x y : Compiled α} (h : x.toOption = y.toOption) :
    (∃ a, x = .ok a ∧ y = .ok a) ∨ ∃ err err', x = .error err ∧ y = .error err' := by
  cases x with
  | ok a => exact .inl ⟨a, rfl, toOption_eq_some_iff.mp h.symm⟩
  | error err =>
    cases y with
    | ok a => cases h
    | error err' => exact .inr ⟨err, err', rfl, rfl⟩

/-! ## The error of a compile

The other half: `error?` forgets the result and keeps the reason. -/

/-- The error that a compile fails with, if it fails. -/
def error? : Compiled α → Option CompileError
  | .ok _ => none
  | .error e => some e

theorem error?_eq_some_iff {x : Compiled α} {e : CompileError} :
    x.error? = some e ↔ x = .error e := by
  cases x <;> simp [error?]

theorem error?_map (x : Compiled α) (f : α → β) : error? (x.map f) = x.error? := by
  cases x <;> rfl

theorem error?_bind_pure (x : Compiled α) (f : α → β) :
    error? (x >>= fun a => pure (f a)) = x.error? := by
  cases x <;> rfl

/-- **A list reports the first element that fails.** -/
theorem error?_mapM (f : α → Compiled β) (xs : List α) :
    error? (xs.mapM f) = xs.findSome? fun x => (f x).error? := by
  induction xs with
  | nil => rfl
  | cons x xs ih =>
    rw [List.mapM_cons, List.findSome?_cons, ← ih]
    cases f x with
    | error e => rfl
    | ok y => cases xs.mapM f <;> rfl

end Compiled

end IndexQuery
