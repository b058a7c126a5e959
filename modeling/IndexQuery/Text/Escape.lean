/-
# Backslash escapes

Three places of the engine's languages hold a literal text: the braces of a tag clause, a
double-quoted phrase and a single-quoted string of a value expression.  Each of them escapes its
own set of characters by one backslash, so one encoder, `escape`, serves all three, and a set of
characters is all that tells them apart.

The set always holds the backslash itself.  That is what makes the encoding readable: a
backslash with its next character stands for that character, everything else for itself.
-/
import IndexQuery.Text.Blank

namespace IndexQuery

/-- Puts a backslash before every character that `special` picks. -/
def escapeChars (special : Char → Bool) : List Char → List Char
  | [] => []
  | c :: rest =>
    if special c then '\\' :: c :: escapeChars special rest else c :: escapeChars special rest

/-- `escapeChars` on a text. -/
def escape (special : Char → Bool) (s : String) : String :=
  String.ofList (escapeChars special s.toList)

@[simp] theorem toList_escape (special : Char → Bool) (s : String) :
    (escape special s).toList = escapeChars special s.toList := by
  simp [escape]

/-! ## Tag values -/

/-- The characters that carry a meaning of their own inside the braces of a tag clause. -/
def tagReserved : List Char :=
  [',', '.', '<', '>', '\x7b', '\x7d', '[', ']', '"', '\'', ':', ';', '!', '@', '#', '$', '%',
   '^', '&', '*', '(', ')', '-', '+', '=', '~', '|', '/', '\\', '?']

/-- A reserved or a blank character. -/
def isTagSpecial (c : Char) : Bool :=
  tagReserved.contains c || isBlank c

/-- A value as it stands inside the braces of a tag clause. -/
def escapeTag (s : String) : String :=
  escape isTagSpecial s

/-! ## Quoted texts -/

/-- The quote itself, and the backslash. -/
def isQuoteSpecial (quote c : Char) : Bool :=
  c == quote || c == '\\'

/-- A text between two quotes. -/
def quoted (quote : Char) (s : String) : String :=
  String.ofList (quote :: escapeChars (isQuoteSpecial quote) s.toList ++ [quote])

/-- A phrase of the query language, in double quotes. -/
def quotePhrase (s : String) : String :=
  quoted '"' s

/-- A string of the value expression language, in single quotes. -/
def quoteString (s : String) : String :=
  quoted '\'' s

@[simp] theorem toList_quoted (quote : Char) (s : String) :
    (quoted quote s).toList =
      quote :: escapeChars (isQuoteSpecial quote) s.toList ++ [quote] := by
  simp [quoted]

end IndexQuery
