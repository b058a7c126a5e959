/-
# Blank characters

A character is blank when it has the Unicode property `White_Space`, which is twenty-five code
points in ten runs.  A text is blank when every character of it is: that is what an empty text
is after trimming both ends, and it is how an empty request, an empty index name and an empty
field name are recognised.
-/

namespace IndexQuery

/-- The code points of the property `White_Space`, as inclusive runs in increasing order. -/
def blankRuns : List (Nat × Nat) :=
  [(0x09, 0x0D), (0x20, 0x20), (0x85, 0x85), (0xA0, 0xA0), (0x1680, 0x1680), (0x2000, 0x200A),
   (0x2028, 0x2029), (0x202F, 0x202F), (0x205F, 0x205F), (0x3000, 0x3000)]

/-- A character with the property `White_Space`. -/
def isBlank (c : Char) : Bool :=
  blankRuns.any fun run => run.1 ≤ c.toNat && c.toNat ≤ run.2

/-- A text that holds nothing but blank characters. -/
def isBlankText (s : String) : Bool :=
  s.toList.all isBlank

/-! ## The table -/

/-- The runs hold twenty-five code points in all. -/
example : (blankRuns.map fun run => run.2 + 1 - run.1).sum = 25 := rfl

end IndexQuery
