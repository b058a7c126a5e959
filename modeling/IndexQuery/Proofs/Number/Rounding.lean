/-
# The digits of a number read back

A decimal is read by rounding it once, `Decimal.toBinary64?`.  What is read depends on the value of the
decimal and not on how it is split into digits and a power of ten (`toBinary64?_congr`), so zeros at the
end of the digits do not matter.

Hence the digits that are chosen for a number read back as that number (`toBinary64?_shortest`).  A
digit string found by the search does by the test that it passed, and all digits of the number do because
rounding leaves a number alone that is representable already (`nearest_steps`).
-/
import IndexQuery.Number.Shortest
import Mathlib.Tactic.Ring

namespace IndexQuery

namespace Binary64

/-! ## 1. Rounding depends on the value of a fraction

Numerator and denominator may be multiplied by one factor without a change in any step: not in the quotient,
not in how the remainder compares with half of the divisor, and hence not in the exponent either. -/

theorem roundDiv_mul_right (num den : Nat) {k : Nat} (hk : 0 < k) :
    roundDiv (num * k) (den * k) = roundDiv num den := by
  have hlow : 2 * (num % den * k) < den * k ↔ 2 * (num % den) < den := by
    rw [← Nat.mul_assoc, Nat.mul_lt_mul_right hk]
  have hhigh : den * k < 2 * (num % den * k) ↔ den < 2 * (num % den) := by
    rw [← Nat.mul_assoc, Nat.mul_lt_mul_right hk]
  simp only [roundDiv, Nat.mul_div_mul_right _ _ hk, Nat.mul_mod_mul_right, hlow, hhigh]

theorem roundDiv_mul_self (q : Nat) {den : Nat} (hden : 0 < den) : roundDiv (q * den) den = q := by
  simp [roundDiv, hden]

theorem nearest_mul_right (num den : Nat) {k : Nat} (hk : 0 < k) :
    nearest (num * k) (den * k) = nearest num den := by
  have hscaled : num * k * unit = num * unit * k := by ring
  have hshift : ∀ e, (den * k) <<< e = den <<< e * k := by
    intro e
    rw [Nat.shiftLeft_eq, Nat.shiftLeft_eq]
    ring
  simp only [nearest, hscaled, Nat.mul_div_mul_right _ _ hk, hshift, roundDiv_mul_right _ _ hk]

/-- Equal fractions are rounded to the same number. -/
theorem ofRatio?_congr {num den num' den' : Nat} (hden : 0 < den) (hden' : 0 < den')
    (h : num * den' = num' * den) (negative : Bool) :
    ofRatio? negative num den = ofRatio? negative num' den' := by
  have hnearest : nearest num den = nearest num' den' := by
    rw [← nearest_mul_right num den hden', ← nearest_mul_right num' den' hden, h,
      Nat.mul_comm den den']
  simp only [ofRatio?, hnearest]

/-- A fraction is rounded to the number that has the sign, and the nearest significand and exponent. -/
theorem ofRatio?_eq_some_iff {negative : Bool} {num den : Nat} {x : Binary64} :
    ofRatio? negative num den = some x ↔
      x.negative = negative ∧ nearest num den = (x.significand, x.exponent) := by
  obtain ⟨sign, significand, exponent, hnormal⟩ := x
  unfold ofRatio?
  generalize nearest num den = r
  obtain ⟨m, e⟩ := r
  constructor
  · intro h
    dsimp only at h
    split at h
    · cases h
      exact ⟨rfl, rfl⟩
    · cases h
  · rintro ⟨rfl, heq⟩
    obtain ⟨rfl, rfl⟩ := Prod.mk.inj heq
    exact dif_pos hnormal

/-- The sign is taken over as it is. -/
theorem ofRatio?_sign {negative : Bool} {num den : Nat} {x : Binary64}
    (h : ofRatio? negative num den = some x) (sign : Bool) :
    ofRatio? sign num den = some { x with negative := sign } :=
  ofRatio?_eq_some_iff.mpr ⟨rfl, (ofRatio?_eq_some_iff.mp h).2⟩

theorem nearest_zero {den : Nat} (hden : 0 < den) : nearest 0 den = (0, 0) := by
  have hround : roundDiv 0 den = 0 := by simp [roundDiv, hden]
  simp [nearest, hround]

theorem ofRatio?_zero (negative : Bool) {den : Nat} (hden : 0 < den) :
    ofRatio? negative 0 den = some (zero negative) :=
  ofRatio?_eq_some_iff.mpr ⟨rfl, nearest_zero hden⟩

/-! ## 2. A representable number is left alone

A number is the fraction `steps / unit`.  Its normal form has just the exponent that rounding would choose,
and with that exponent the division leaves no remainder. -/

theorem unit_pos : 0 < unit :=
  Nat.pos_of_ne_zero (by rw [unit, Ne, Nat.shiftLeft_eq_zero_iff]; decide)

/-- The normal form fixes the exponent. -/
theorem log2_steps (x : Binary64) : Nat.log2 x.steps - 52 = x.exponent := by
  obtain ⟨hupper, -, hnormal⟩ := x.normal
  rw [steps, Nat.shiftLeft_eq]
  rcases hnormal with hzero | hlower
  · rw [hzero, Nat.pow_zero, Nat.mul_one]
    have hlog : x.significand.log2 < 53 := by
      by_cases hsignificand : x.significand = 0
      · rw [hsignificand]
        decide
      · exact (Nat.log2_lt hsignificand).mpr hupper
    omega
  · have hsignificand : x.significand ≠ 0 := by
      intro heq
      rw [heq] at hlower
      simp at hlower
    have hproduct : x.significand * 2 ^ x.exponent ≠ 0 :=
      Nat.mul_ne_zero hsignificand (Nat.two_pow_pos _).ne'
    have hlog : (x.significand * 2 ^ x.exponent).log2 = 52 + x.exponent := by
      refine (Nat.log2_eq_iff hproduct).mpr ⟨?_, ?_⟩
      · rw [Nat.pow_add]
        exact Nat.mul_le_mul_right _ hlower
      · rw [Nat.add_right_comm, Nat.pow_add]
        exact Nat.mul_lt_mul_of_pos_right hupper (Nat.two_pow_pos _)
    rw [hlog, Nat.add_sub_cancel_left]

theorem nearest_steps (x : Binary64) : nearest x.steps unit = (x.significand, x.exponent) := by
  have hround : roundDiv (x.steps * unit) (unit <<< x.exponent) = x.significand := by
    have hpos : 0 < unit <<< x.exponent := by
      rw [Nat.shiftLeft_eq]
      exact Nat.mul_pos unit_pos (Nat.two_pow_pos _)
    have hproduct : x.steps * unit = x.significand * unit <<< x.exponent := by
      rw [steps, Nat.shiftLeft_eq, Nat.shiftLeft_eq]
      ring
    rw [hproduct, roundDiv_mul_self _ hpos]
  have hne : x.significand ≠ 0x20000000000000 := Nat.ne_of_lt x.normal.1
  simp only [nearest, Nat.mul_div_cancel _ unit_pos, log2_steps, hround, if_neg hne]

theorem ofRatio?_steps (x : Binary64) : ofRatio? x.negative x.steps unit = some x :=
  ofRatio?_eq_some_iff.mpr ⟨rfl, x.nearest_steps⟩

end Binary64

/-! ## 3. Decimals

A decimal is a fraction as well, with a power of ten above or below, and is read by rounding it. -/

namespace Decimal

theorem den_pos (d : Decimal) : 0 < d.den :=
  Nat.pow_pos (by decide)

/-- **What a decimal is read as depends on its value.** -/
theorem toBinary64?_congr {d d' : Decimal} (h : d.num * d'.den = d'.num * d.den)
    (negative : Bool) : d.toBinary64? negative = d'.toBinary64? negative :=
  Binary64.ofRatio?_congr d.den_pos d'.den_pos h negative

/-- A zero at the end of the digits can be moved to the power of ten. -/
theorem toBinary64?_shift (digits : Nat) (exponent : Int) (negative : Bool) :
    (Decimal.mk (10 * digits) exponent).toBinary64? negative
      = (Decimal.mk digits (exponent + 1)).toBinary64? negative := by
  refine toBinary64?_congr ?_ negative
  simp only [num, den, Nat.pow_eq]
  by_cases hexponent : 0 ≤ exponent
  · have h₁ : (exponent + 1).toNat = exponent.toNat + 1 := by omega
    have h₂ : (-exponent).toNat = 0 := by omega
    have h₃ : (-(exponent + 1)).toNat = 0 := by omega
    rw [h₁, h₂, h₃]
    ring
  · have h₁ : (exponent + 1).toNat = 0 := by omega
    have h₂ : exponent.toNat = 0 := by omega
    have h₃ : (-exponent).toNat = (-(exponent + 1)).toNat + 1 := by omega
    rw [h₁, h₂, h₃]
    ring

theorem toBinary64?_scale (digits k : Nat) (exponent : Int) (negative : Bool) :
    (Decimal.mk (digits * Nat.pow 10 k) (exponent - k)).toBinary64? negative
      = (Decimal.mk digits exponent).toBinary64? negative := by
  induction k with
  | zero => simp
  | succ k ih =>
    have hdigits : digits * Nat.pow 10 (k + 1) = 10 * (digits * Nat.pow 10 k) := by
      simp only [Nat.pow_eq]
      ring
    have hexponent : exponent - (k + 1 : Nat) + 1 = exponent - k := by omega
    rw [hdigits, toBinary64?_shift, hexponent, ih]

theorem toBinary64?_trim (d : Decimal) (negative : Bool) :
    d.trim.toBinary64? negative = d.toBinary64? negative := by
  fun_induction trim d with
  | case1 d _ => rfl
  | case2 d _ hmod ih =>
    have hdigits : 10 * (d.digits / 10) = d.digits := by omega
    rw [ih, ← toBinary64?_shift, hdigits]
  | case3 d _ _ => rfl

end Decimal

/-! ## 4. The chosen digits

A candidate is taken only if it reads back, and where none is taken the number is written with all its
digits.  So nothing has to be known of how candidates are found. -/

namespace Binary64

/-- Every binary fraction is a decimal one. -/
theorem mul_five_pow (n k : Nat) : n * Nat.pow 5 k * 1 <<< k = n * Nat.pow 10 k := by
  have hten : (10 : Nat) ^ k = 5 ^ k * 2 ^ k := by rw [← Nat.mul_pow]
  simp only [Nat.pow_eq, Nat.shiftLeft_eq, hten]
  ring

theorem toBinary64?_mul_five_pow (x : Binary64) {k : Nat} (hk : unit = 1 <<< k) :
    (Decimal.mk (x.steps * Nat.pow 5 k) (-k)).toBinary64? x.negative = some x := by
  have hnum : (-(k : Int)).toNat = 0 := by omega
  have hden : (- -(k : Int)).toNat = k := by omega
  rw [← ofRatio?_steps x]
  refine ofRatio?_congr (Decimal.den_pos _) unit_pos ?_ x.negative
  rw [Decimal.num, Decimal.den, hnum, hden, hk, ← mul_five_pow x.steps k]
  exact congrArg (· * 1 <<< k) (Nat.mul_one _)

theorem toBinary64?_exact (x : Binary64) : x.exact.toBinary64? x.negative = some x :=
  x.toBinary64?_mul_five_pow (k := 1074) rfl

theorem toBinary64?_of_candidate? {tie : Tie} {x : Binary64} {after : Nat} {d : Decimal}
    (h : candidate? tie x after = some d) : d.toBinary64? x.negative = some x := by
  unfold candidate? at h
  simp only at h
  split at h
  · next hlow =>
    cases h
    exact beq_iff_eq.mp (Bool.and_eq_true_iff.mp hlow).1
  · split at h
    · next hhigh =>
      cases h
      exact beq_iff_eq.mp hhigh
    · cases h

theorem eq_zero_of_isZero {x : Binary64} (h : x.isZero = true) : x = zero x.negative := by
  obtain ⟨negative, significand, exponent, hnormal⟩ := x
  have hsignificand : significand = 0 := beq_iff_eq.mp h
  subst hsignificand
  have hexponent : exponent = 0 := by simpa using hnormal.2.2
  subst hexponent
  rfl

/-- **The chosen digits read back as the number.** -/
theorem toBinary64?_shortest (tie : Tie) (x : Binary64) :
    (x.shortest tie).toBinary64? x.negative = some x := by
  unfold shortest
  split
  · next hzero =>
    rw [eq_zero_of_isZero hzero]
    exact ofRatio?_zero _ Nat.one_pos
  · rw [Decimal.toBinary64?_trim]
    cases hfind : (List.range 17).findSome? (candidate? tie x) with
    | none => exact x.toBinary64?_exact
    | some d =>
      obtain ⟨after, -, hcandidate⟩ := List.exists_of_findSome?_eq_some hfind
      exact toBinary64?_of_candidate? hcandidate

/-- Zero is written with one digit, and no other number has the digits of zero. -/
theorem exponent_shortest_of_digits_eq_zero {tie : Tie} {x : Binary64}
    (h : (x.shortest tie).digits = 0) : (x.shortest tie).exponent = 0 := by
  have hreads := x.toBinary64?_shortest tie
  have hnum : (x.shortest tie).num = 0 := by rw [Decimal.num, h, Nat.zero_mul]
  rw [Decimal.toBinary64?, hnum, ofRatio?_zero _ (Decimal.den_pos _)] at hreads
  have hzero : x.isZero = true := by
    rw [← Option.some.inj hreads]
    rfl
  rw [shortest, if_pos hzero]

end Binary64

end IndexQuery
