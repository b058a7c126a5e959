/-
# The query language

The grammar of the engine's query language, said once and without reference to what writes it.

    item ::= '-' item | '(' item ')' | '(' item (' ' item)+ ')' | '(' item (' | ' item)+ ')' | leaf
    leaf ::= '@' name ':' body

A name is a non-empty word.  A body is one of three: tag alternatives in braces, a phrase in double
quotes, or tokens in square brackets.  `QueryTree` is what a text says, with every literal decoded:
a backslash pair is the character behind it, a pair of parentheses around one item is nothing.

`QueryTree.Derives t u` is the grammar as a relation between trees and texts.  It is not a printer:
a tree has many texts, since a tag literal may be escaped more than it has to be and an item may
stand in more parentheses than it needs.
-/
import Mathlib.Data.List.Forall2

namespace IndexQuery

/-! ## 1. What a query says -/

/-- A piece of a tag alternative: a character that stands for itself, or a wildcard. -/
inductive TagPiece where
  | char (c : Char)
  | wildcard
  deriving DecidableEq

/-- A token between square brackets, and whether it is marked as an exclusive bound. -/
structure RangeToken where
  exclusive : Bool
  text : String
  deriving DecidableEq

/-- What a leaf says of its field. -/
inductive LeafBody where
  | tags (alternatives : List (List TagPiece))
  | phrase (value : String)
  | span (tokens : List RangeToken)
  deriving DecidableEq

/-- A leaf of a query. -/
structure QueryLeaf where
  field : String
  body : LeafBody
  deriving DecidableEq

/-- The two ways to join items: all of them hold, or any of them does. -/
inductive Junction where
  | all | any
  deriving DecidableEq

/-- What stands between two joined items. -/
def Junction.separator : Junction → List Char
  | all => [' ']
  | any => [' ', '|', ' ']

/-- A query as a boolean tree over leaves. -/
inductive QueryTree where
  | leaf (l : QueryLeaf)
  | negation (t : QueryTree)
  | joined (op : Junction) (operands : List QueryTree)

/-! ## 2. Character classes -/

/-- A character of a name: a letter, a digit or the underscore.  Beyond ASCII every character
counts as a letter. -/
def isWordChar (c : Char) : Bool :=
  c.isAlphanum || c == '_' || 0x80 ≤ c.toNat

/-- A character that may stand in a tag alternative without a backslash. -/
def isTagPlain (c : Char) : Bool :=
  c != '\\' && c != '*' && c != '|' && c != '\x7d'

/-- A character that may stand in a phrase without a backslash. -/
def isPhrasePlain (c : Char) : Bool :=
  c != '\\' && c != '"'

/-- A character of a token between square brackets. -/
def isTokenChar (c : Char) : Bool :=
  c != ' ' && c != ']' && c != '('

/-- A non-empty text of characters of one class. -/
def IsRun (p : Char → Bool) (u : List Char) : Prop :=
  u ≠ [] ∧ ∀ c ∈ u, p c = true

/-- A name that the query language can hold. -/
def IsWord (name : String) : Prop :=
  IsRun isWordChar name.toList

instance (p : Char → Bool) (u : List Char) : Decidable (IsRun p u) :=
  decidable_of_iff (u ≠ [] ∧ u.all p = true) (by simp [IsRun])

instance (name : String) : Decidable (IsWord name) :=
  inferInstanceAs (Decidable (IsRun _ _))

/-! ## 3. The grammar -/

/-- The texts of one piece of a tag alternative. -/
inductive TagPiece.Derives : TagPiece → List Char → Prop
  | wildcard : Derives .wildcard ['*']
  | plain {c : Char} : isTagPlain c = true → Derives (.char c) [c]
  | escaped (c : Char) : Derives (.char c) ['\\', c]

/-- The texts of a tag alternative: those of its pieces in a row. -/
def DerivesAlternative (pieces : List TagPiece) (u : List Char) : Prop :=
  ∃ us, List.Forall₂ TagPiece.Derives pieces us ∧ u = us.flatten

/-- The texts of one character of a phrase. -/
inductive DerivesPhraseChar : Char → List Char → Prop
  | plain {c : Char} : isPhrasePlain c = true → DerivesPhraseChar c [c]
  | escaped (c : Char) : DerivesPhraseChar c ['\\', c]

/-- A token as it is written: an exclusive bound has a parenthesis in front. -/
def RangeToken.chars (t : RangeToken) : List Char :=
  if t.exclusive then '(' :: t.text.toList else t.text.toList

/-- The texts of what a leaf says. -/
inductive LeafBody.Derives : LeafBody → List Char → Prop
  | tags {alternatives : List (List TagPiece)} {us : List (List Char)} :
      alternatives ≠ [] → List.Forall₂ DerivesAlternative alternatives us →
      Derives (.tags alternatives) ('\x7b' :: ['|'].intercalate us ++ ['\x7d'])
  | phrase {value : String} {us : List (List Char)} :
      List.Forall₂ DerivesPhraseChar value.toList us →
      Derives (.phrase value) ('"' :: us.flatten ++ ['"'])
  | span {tokens : List RangeToken} :
      tokens ≠ [] → (∀ t ∈ tokens, IsRun isTokenChar t.text.toList) →
      Derives (.span tokens) ('[' :: [' '].intercalate (tokens.map RangeToken.chars) ++ [']'])

/-- The texts of a leaf. -/
inductive QueryLeaf.Derives : QueryLeaf → List Char → Prop
  | mk {field : String} {body : LeafBody} {u : List Char} :
      IsWord field → body.Derives u → Derives ⟨field, body⟩ ('@' :: field.toList ++ ':' :: u)

/-- **The grammar of items.**  A pair of parentheses holds one item, or two and more joined by one
separator. -/
inductive QueryTree.Derives : QueryTree → List Char → Prop
  | leaf {l : QueryLeaf} {u : List Char} : l.Derives u → Derives (.leaf l) u
  | negation {t : QueryTree} {u : List Char} : Derives t u → Derives (.negation t) ('-' :: u)
  | group {t : QueryTree} {u : List Char} : Derives t u → Derives t ('(' :: u ++ [')'])
  | joined {op : Junction} {ts : List QueryTree} {us : List (List Char)} :
      2 ≤ ts.length → List.Forall₂ Derives ts us →
      Derives (.joined op ts) ('(' :: op.separator.intercalate us ++ [')'])

end IndexQuery
