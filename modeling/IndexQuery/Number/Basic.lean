/-
# JSON numbers

A number is one of three kinds, and the kind is kept: a natural number of 64 bits, a negative
integer down to `-2 ^ 63`, or a binary64 number.  Only the first kind counts as a count or an
offset (`1.0` and `-0` do not), every kind counts as a coordinate.

Reading a numeral decides the kind by its form alone.  A numeral without fraction and exponent
that fits one of the integer kinds is an integer; everything else, `-0` included, is binary64.
A binary64 numeral is read in two roundings (`Numeral.toBinary64?`): the leading digits that fit
64 bits are rounded, then scaled by a rounded power of ten.
-/
import IndexQuery.Number.Layout

namespace IndexQuery

/-- A JSON number with its kind; `negSucc k` is `-(k + 1)`, for a `k` of 63 bits. -/
inductive Number where
  | whole (n : UInt64)
  | negSucc (k : Fin 0x8000000000000000)
  | float (x : Binary64)
  deriving DecidableEq

namespace Number

/-- The number as JSON writes it. -/
def text : Number → String
  | whole n => Nat.repr n.toNat
  | negSucc k => "-" ++ Nat.repr (k.val + 1)
  | float x => x.jsonText

/-- The number as a count: only a natural number is one. -/
def toUInt64? : Number → Option UInt64
  | whole n => some n
  | _ => none

/-- The nearest binary64 number. -/
def toBinary64 : Number → Binary64
  | whole n => Binary64.ofNat n.toNat
  | negSucc k => (Binary64.ofNat (k.val + 1)).negate
  | float x => x

end Number

/-! ## Numerals -/

/-- A numeral of the JSON grammar: its sign, its digits before the point, after it, and the
exponent with its sign, the digits given by their values. -/
structure Numeral where
  negative : Bool
  whole : List Nat
  fraction : Option (List Nat)
  exponent : Option (Bool × List Nat)
  deriving DecidableEq

/-- The value of a row of decimal digits. -/
def digitsValue (digits : List Nat) : Nat :=
  digits.foldl (fun n d => 10 * n + d) 0

namespace Numeral

/-- The longest beginning of the digits that still fits 64 bits after `n`, as the value reached
and how many digits were left over. -/
def absorb (n : Nat) : List Nat → Nat × Nat
  | [] => (n, 0)
  | d :: ds => if 10 * n + d < UInt64.size then absorb (10 * n + d) ds else (n, ds.length + 1)

/-- The leading digits that fit 64 bits, and the power of ten they are to be scaled by.  A whole
digit left over raises the power by one, a fraction digit taken in lowers it by one. -/
def leadingDigits (x : Numeral) : Nat × Int :=
  let (n, excess) := absorb 0 x.whole
  let fraction := x.fraction.getD []
  let (n, rest) := absorb n fraction
  let scale : Int := (excess : Int) - ((fraction.length - rest : Nat) : Int)
  match x.exponent with
  | none => (n, scale)
  | some (false, e) => (n, scale + digitsValue e)
  | some (true, e) => (n, scale - digitsValue e)

/-- The greatest power of ten that is scaled by in one step. -/
def maxPower : Nat := 308

/-- The number divided that many times by the greatest power, or zero as soon as it is reached. -/
def divideRepeatedly : Nat → Binary64 → Option Binary64
  | 0, x => some x
  | n + 1, x =>
    if x.isZero then some x
    else (x.div? (Binary64.powerOfTen maxPower)).bind (divideRepeatedly n)

/-- The number divided by `10 ^ k`, for a `k` other than zero: by the greatest power as long as
more than that is left, then by the power that is left. -/
def divideByPower (x : Binary64) (k : Nat) : Option Binary64 :=
  let times := (k - 1) / maxPower
  (divideRepeatedly times x).bind fun y => y.div? (Binary64.powerOfTen (k - times * maxPower))

/-- The number scaled by a power of ten, unless it becomes too large. -/
def scaleByPower (x : Binary64) : Int → Option Binary64
  | .ofNat k =>
    if k ≤ maxPower then x.mul? (Binary64.powerOfTen k)
    else if x.isZero then some x
    else none
  | .negSucc k => divideByPower x (k + 1)

/-- The numeral as a binary64 number: leading digits first, then the power of ten. -/
def toBinary64? (x : Numeral) : Option Binary64 :=
  let (n, scale) := x.leadingDigits
  (scaleByPower (Binary64.ofNat n) scale).map fun y => { y with negative := x.negative }

/-- The number a numeral stands for; none when it is too large. -/
def value? (x : Numeral) : Option Number :=
  let n := digitsValue x.whole
  match x.fraction, x.exponent with
  | none, none =>
    if x.negative then
      if h : n - 1 < 0x8000000000000000 then
        if n = 0 then some (.float (Binary64.zero true)) else some (.negSucc ⟨n - 1, h⟩)
      else x.toBinary64?.map .float
    else if n < UInt64.size then some (.whole (UInt64.ofNat n))
    else x.toBinary64?.map .float
  | _, _ => x.toBinary64?.map .float

end Numeral

end IndexQuery
