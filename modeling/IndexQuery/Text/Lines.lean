/-
# Lines of a text

A line ends with a line feed, and a carriage return right before it belongs to the end.  What stands
after the last line feed is a line too, unless it is empty.  No other character ends a line.
-/
namespace IndexQuery

/-- A line, its characters in reverse, without the carriage return at its end. -/
def dropReturn : List Char → List Char
  | '\r' :: rest => rest
  | cs => cs

/-- The lines of a text of which the given characters, in reverse, are read already. -/
def linesAfter (read : List Char) : List Char → List String
  | [] => if read.isEmpty then [] else [String.ofList read.reverse]
  | c :: rest =>
    if c = '\n' then String.ofList (dropReturn read).reverse :: linesAfter [] rest
    else linesAfter (c :: read) rest

/-- The lines of a text. -/
def textLines (s : String) : List String :=
  linesAfter [] s.toList

theorem linesAfter_append {s : List Char} (h : '\n' ∉ s) (read rest : List Char) :
    linesAfter read (s ++ rest) = linesAfter (s.reverse ++ read) rest := by
  induction s generalizing read with
  | nil => rfl
  | cons c s ih =>
    have hc : c ≠ '\n' := by
      intro hc
      exact h (by simp [hc])
    have hs : '\n' ∉ s := fun hs => h (by simp [hs])
    simp [linesAfter, hc, ih hs]

end IndexQuery
