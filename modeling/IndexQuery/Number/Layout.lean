/-
# Layouts of a binary64 number

The digits of a number are `Binary64.shortest`; what is left to say is where the point goes and
when an exponent is written.  Two layouts are in use.

* In JSON, and wherever a constant is written, a number keeps a fraction (`10.0`), is written
  positionally while the power of ten of its first digit is between -5 and 15, and otherwise with
  a signed exponent (`1.5e-7`, `1e+16`).
* The coordinates and the radius of a geo filter are always positional and have a fraction only
  when they need one (`5`, `-122.4`, `10000000000000000`).

Both write negative zero with its sign.
-/
import IndexQuery.Number.Shortest

namespace IndexQuery

namespace Decimal

/-- The digits before and after the point when the decimal is written positionally; a whole part
of zero is written as one zero. -/
def positional (d : Decimal) : List Char × List Char :=
  let cs := d.chars
  if 0 ≤ d.exponent then (cs ++ List.replicate d.exponent.toNat '0', [])
  else
    let places := (-d.exponent).toNat
    if places < cs.length then (cs.take (cs.length - places), cs.drop (cs.length - places))
    else (['0'], List.replicate (places - cs.length) '0' ++ cs)

/-- One digit before the point, the others after it, and the exponent with its sign. -/
def scientific (d : Decimal) : List Char :=
  let cs := d.chars
  let fraction := if cs.length ≤ 1 then [] else '.' :: cs.drop 1
  let sign := if d.leading < 0 then '-' else '+'
  cs.take 1 ++ fraction ++ 'e' :: sign :: Nat.toDigits 10 d.leading.natAbs

end Decimal

namespace Binary64

/-- The sign in front of the written magnitude. -/
def signed (x : Binary64) (body : List Char) : String :=
  String.ofList (if x.negative then '-' :: body else body)

/-- The number as JSON writes it. -/
def jsonText (x : Binary64) : String :=
  let d := x.shortest .toEven
  if -5 ≤ d.leading ∧ d.leading ≤ 15 then
    let (whole, fraction) := d.positional
    x.signed (whole ++ '.' :: if fraction.isEmpty then ['0'] else fraction)
  else
    x.signed d.scientific

/-- The number as a coordinate or a radius. -/
def plainText (x : Binary64) : String :=
  let (whole, fraction) := (x.shortest .up).positional
  x.signed (if fraction.isEmpty then whole else whole ++ '.' :: fraction)

end Binary64

end IndexQuery
