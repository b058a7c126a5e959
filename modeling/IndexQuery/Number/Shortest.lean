/-
# The fewest digits that read back

A binary64 number is written with the fewest decimal digits from which rounding to the nearest
gives it back, and of the decimals with that many digits with the nearest one.

The search is exact.  For one digit, two, and so on up to seventeen, the two neighbours of the
number on that decimal grid are tried; if some point of the grid reads back, one of them does.
A candidate counts only when `ofRatio?` returns the very number, so a found decimal reads back by
construction.  Should no grid have a hit, all digits of the number are written, which read back
because every binary fraction is a decimal one.
-/
import IndexQuery.Number.Binary64

namespace IndexQuery

/-- A decimal `digits · 10 ^ exponent`. -/
structure Decimal where
  digits : Nat
  exponent : Int
  deriving DecidableEq

namespace Decimal

/-- The numerator of the decimal as a fraction. -/
def num (d : Decimal) : Nat :=
  d.digits * Nat.pow 10 d.exponent.toNat

/-- The denominator of the decimal as a fraction: a power of ten. -/
def den (d : Decimal) : Nat :=
  Nat.pow 10 (-d.exponent).toNat

/-- The binary64 number nearest to the decimal. -/
def toBinary64? (negative : Bool) (d : Decimal) : Option Binary64 :=
  Binary64.ofRatio? negative d.num d.den

/-- The same decimal without zeros at the end of its digits. -/
def trim (d : Decimal) : Decimal :=
  if d.digits = 0 then d
  else if d.digits % 10 = 0 then trim ⟨d.digits / 10, d.exponent + 1⟩
  else d
termination_by d.digits
decreasing_by
  show d.digits / 10 < d.digits
  omega

/-- The decimal digits, most significant first. -/
def chars (d : Decimal) : List Char :=
  Nat.toDigits 10 d.digits

/-- The power of ten of the first digit. -/
def leading (d : Decimal) : Int :=
  d.exponent + d.chars.length - 1

end Decimal

/-- Which of two decimals at the same distance is written: the one with an even last digit, or
the larger one. -/
inductive Tie where
  | toEven
  | up
  deriving DecidableEq

namespace Binary64

/-- How many decimal digits a natural number has; zero has none. -/
def digitCount (n : Nat) : Nat :=
  if n = 0 then 0 else (Nat.toDigits 10 n).length

/-- The power of ten of the first digit of a number other than zero. -/
def magnitude (x : Binary64) : Int :=
  if unit ≤ x.steps then (digitCount (x.steps / unit) : Int) - 1
  else -(digitCount ((unit - 1) / x.steps) : Int)

/-- The decimal below the number, or equal to it, on the grid of the given power of ten, with
twice what is left of a grid step and the grid step, both in a common measure. -/
def onGrid (x : Binary64) (exponent : Int) : Decimal × Nat × Nat :=
  let num := x.steps * Nat.pow 10 (-exponent).toNat
  let den := unit * Nat.pow 10 exponent.toNat
  (⟨num / den, exponent⟩, 2 * (num % den), den)

/-- The decimal that reads back on the grid with the given number of digits after the first, the
nearer one of two. -/
def candidate? (tie : Tie) (x : Binary64) (after : Nat) : Option Decimal :=
  let (low, rest, step) := x.onGrid (x.magnitude - after)
  let high : Decimal := ⟨low.digits + 1, low.exponent⟩
  let lowReads := low.toBinary64? x.negative == some x
  let highReads := high.toBinary64? x.negative == some x
  let preferLow := rest < step || (rest == step && tie == .toEven && low.digits % 2 == 0)
  if lowReads && (preferLow || !highReads) then some low
  else if highReads then some high
  else none

/-- All digits of the number: `steps / 2 ^ 1074` is `steps · 5 ^ 1074 / 10 ^ 1074`. -/
def exact (x : Binary64) : Decimal :=
  ⟨x.steps * Nat.pow 5 1074, -1074⟩

/-- The fewest digits that read back, without zeros at their end. -/
def shortest (tie : Tie) (x : Binary64) : Decimal :=
  if x.isZero then ⟨0, 0⟩
  else (((List.range 17).findSome? (candidate? tie x)).getD x.exact).trim

end Binary64

end IndexQuery
