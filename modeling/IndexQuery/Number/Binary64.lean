/-
# Finite binary64 numbers

A finite number of the binary64 format is a sign and a magnitude

    significand · 2 ^ exponent / 2 ^ 1074,

where the significand has at most 53 bits and fills all of them unless the exponent is zero.
The bounds `0x10000000000000` and `0x20000000000000` are the least number of 53 bits and the
least of 54.  That normal form is a field of the type, so two values are equal exactly when sign
and magnitude are, negative zero included, and equality is decidable.

Rounding is done once, on an exact fraction of natural numbers: `ofRatio?` gives the nearest
number, a tie going to the even significand, and nothing when the fraction lies beyond the
largest number.  Multiplication and division are that rounding of the exact result.
-/

namespace IndexQuery

/-- The number of subnormal steps in one: the smallest positive number is `1 / 2 ^ 1074`. -/
def Binary64.unit : Nat := 1 <<< 1074

/-- A finite number of the binary64 format, negative zero included. -/
structure Binary64 where
  negative : Bool
  significand : Nat
  exponent : Nat
  normal : significand < 0x20000000000000 ∧ exponent ≤ 2045 ∧
    (exponent = 0 ∨ 0x10000000000000 ≤ significand)
  deriving DecidableEq

namespace Binary64

/-- The magnitude in steps of `1 / 2 ^ 1074`. -/
def steps (x : Binary64) : Nat :=
  x.significand <<< x.exponent

/-- Zero of either sign. -/
def isZero (x : Binary64) : Bool :=
  x.significand == 0

/-- Zero with the given sign. -/
def zero (negative : Bool) : Binary64 :=
  ⟨negative, 0, 0, by decide⟩

/-- The number with its sign turned. -/
def negate (x : Binary64) : Binary64 :=
  { x with negative := !x.negative }

/-! ## 1. Rounding -/

/-- The quotient to the nearest natural number, a tie going to the even one. -/
def roundDiv (num den : Nat) : Nat :=
  let q := num / den
  let r := num % den
  if 2 * r < den then q
  else if den < 2 * r then q + 1
  else q + q % 2

/-- The significand and exponent nearest to `num / den`, in the normal form.  The exponent is
chosen from the quotient before rounding; only a significand of all ones can be rounded out of
53 bits, and then it is a power of two with the next exponent. -/
def nearest (num den : Nat) : Nat × Nat :=
  let scaled := num * unit
  let exponent := Nat.log2 (scaled / den) - 52
  let significand := roundDiv scaled (den <<< exponent)
  if significand = 0x20000000000000 then (0x10000000000000, exponent + 1)
  else (significand, exponent)

/-- The number nearest to the fraction `num / den` with the given sign, if it is finite. -/
def ofRatio? (negative : Bool) (num den : Nat) : Option Binary64 :=
  let r := nearest num den
  if h : r.1 < 0x20000000000000 ∧ r.2 ≤ 2045 ∧ (r.2 = 0 ∨ 0x10000000000000 ≤ r.1) then
    some ⟨negative, r.1, r.2, h⟩
  else
    none

/-- The number nearest to a natural number, or zero if that is not finite.  A natural number of
64 bits is far below the largest number. -/
def ofNat (n : Nat) : Binary64 :=
  (ofRatio? false n 1).getD (zero false)

/-! ## 2. Arithmetic -/

/-- The product, if it is finite. -/
def mul? (x y : Binary64) : Option Binary64 :=
  ofRatio? (x.negative != y.negative) (x.steps * y.steps) (unit * unit)

/-- The quotient by a number other than zero, if it is finite. -/
def div? (x y : Binary64) : Option Binary64 :=
  ofRatio? (x.negative != y.negative) x.steps y.steps

/-- The power of ten, rounded; it is finite up to `10 ^ 308`. -/
def powerOfTen (k : Nat) : Binary64 :=
  ofNat (Nat.pow 10 k)

/-- At least zero, negative zero counting as zero, and at most one. -/
def isUnitInterval (x : Binary64) : Bool :=
  (!x.negative || x.isZero) && x.steps ≤ unit

end Binary64

end IndexQuery
