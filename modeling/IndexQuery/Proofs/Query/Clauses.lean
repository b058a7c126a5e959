/-
# The text of a clause

Each clause that escapes or quotes its values, or holds numbers, is written as a leaf of the query
language, and reading the leaf gives back the field and the values as they were before escaping.
Words and wildcards of a text field are not among them: what stands there is written as it is.
-/
import IndexQuery.Filter.Basic
import IndexQuery.Proofs.Number.Text
import IndexQuery.Proofs.Query.Grammar

namespace IndexQuery

/-! ## 1. Escaped literals

The grammar lets a writer escape any character, and the compiler escapes those of a fixed set.  All that has
to be checked is that no character with a meaning in the grammar is missing from the set. -/

/-- One character as `escapeChars` writes it. -/
def escapeOne (special : Char → Bool) (c : Char) : List Char :=
  if special c then ['\\', c] else [c]

theorem escapeChars_eq_flatten (special : Char → Bool) (cs : List Char) :
    escapeChars special cs = (cs.map (escapeOne special)).flatten := by
  induction cs with
  | nil => rfl
  | cons c rest ih => by_cases h : special c <;> simp [escapeChars, escapeOne, h, ih]

theorem isTagPlain_of_not_special {c : Char} (h : ¬ isTagSpecial c = true) :
    isTagPlain c = true := by
  have hne : ∀ d, isTagSpecial d = true → c ≠ d := fun d hd heq => h (heq ▸ hd)
  have h₁ := hne '\\' (by decide)
  have h₂ := hne '*' (by decide)
  have h₃ := hne '|' (by decide)
  have h₄ := hne '\x7d' (by decide)
  simp [isTagPlain, h₁, h₂, h₃, h₄]

theorem isPhrasePlain_of_not_special {c : Char} (h : ¬ isQuoteSpecial '"' c = true) :
    isPhrasePlain c = true := by
  have hne : c ≠ '"' ∧ c ≠ '\\' := by simpa [isQuoteSpecial] using h
  simp [isPhrasePlain, hne]

theorem derives_escapeOne_tag (c : Char) :
    (TagPiece.char c).Derives (escapeOne isTagSpecial c) := by
  unfold escapeOne
  split
  · exact .escaped c
  · next h => exact .plain (isTagPlain_of_not_special h)

theorem derives_escapeOne_phrase (c : Char) :
    DerivesPhraseChar c (escapeOne (isQuoteSpecial '"') c) := by
  unfold escapeOne
  split
  · exact .escaped c
  · next h => exact .plain (isPhrasePlain_of_not_special h)

/-! ## 2. Tag clauses

A pattern is a literal with a wildcard before it, behind it, at both ends or at none; the three parts are
derived one by one. -/

/-- A text as pieces of a tag alternative, without wildcards. -/
def literalPieces (value : String) : List TagPiece :=
  value.toList.map .char

/-- A wildcard, if there is one. -/
def wildcardIf (present : Bool) : List TagPiece :=
  if present then [.wildcard] else []

/-- What a pattern says as a tag alternative. -/
def Pattern.pieces (p : Pattern) : List TagPiece :=
  wildcardIf p.before ++ literalPieces p.value ++ wildcardIf p.after

theorem derivesAlternative_append {ps qs : List TagPiece} {u v : List Char}
    (hp : DerivesAlternative ps u) (hq : DerivesAlternative qs v) :
    DerivesAlternative (ps ++ qs) (u ++ v) := by
  obtain ⟨us, hus, rfl⟩ := hp
  obtain ⟨vs, hvs, rfl⟩ := hq
  exact ⟨us ++ vs, List.rel_append hus hvs, by simp⟩

theorem derivesAlternative_literal (value : String) :
    DerivesAlternative (literalPieces value) (escapeTag value).toList := by
  refine ⟨value.toList.map (escapeOne isTagSpecial), ?_, ?_⟩
  · rw [literalPieces, List.forall₂_map_left_iff, List.forall₂_map_right_iff, List.forall₂_same]
    exact fun c _ => derives_escapeOne_tag c
  · rw [escapeTag, toList_escape, escapeChars_eq_flatten]

theorem derivesAlternative_wildcardIf (present : Bool) :
    DerivesAlternative (wildcardIf present) (if present then "*" else "").toList := by
  cases present with
  | true => exact ⟨[['*']], .cons .wildcard .nil, rfl⟩
  | false => exact ⟨[], .nil, rfl⟩

theorem derivesAlternative_tagText (p : Pattern) :
    DerivesAlternative p.pieces p.tagText.toList := by
  unfold Pattern.pieces Pattern.tagText Pattern.around
  rw [String.toList_append, String.toList_append]
  exact derivesAlternative_append
    (derivesAlternative_append (derivesAlternative_wildcardIf p.before)
      (derivesAlternative_literal p.value))
    (derivesAlternative_wildcardIf p.after)

/-- A clause begins with the sign of its head. -/
theorem Clause.toList_text (c : Clause) : ∃ rest, c.text.toList = '@' :: rest := by
  cases c <;> simp [Clause.text, Clause.head]

/-- The head of a clause and its body are a leaf. -/
theorem derives_head {field : String} {body : LeafBody} {u : String} (hf : IsWord field)
    (hb : body.Derives u.toList) :
    (QueryLeaf.mk field body).Derives (Clause.head field ++ u).toList := by
  have htext : (Clause.head field ++ u).toList = '@' :: field.toList ++ ':' :: u.toList := by
    simp [Clause.head]
  rw [htext]
  exact .mk hf hb

theorem derives_tag {field : String} {patterns : List Pattern} (hf : IsWord field)
    (hne : patterns ≠ []) :
    (QueryLeaf.mk field (.tags (patterns.map Pattern.pieces))).Derives
      (Clause.tag field patterns).text.toList := by
  have hbody : (LeafBody.tags (patterns.map Pattern.pieces)).Derives
      ("\x7b" ++ "|".intercalate (patterns.map Pattern.tagText) ++ "\x7d").toList := by
    have htext : ("\x7b" ++ "|".intercalate (patterns.map Pattern.tagText) ++ "\x7d").toList
        = '\x7b' :: ['|'].intercalate ((patterns.map Pattern.tagText).map String.toList)
          ++ ['\x7d'] := by
      simp
    rw [htext]
    refine .tags (by simpa using hne) ?_
    rw [List.map_map, List.forall₂_map_left_iff, List.forall₂_map_right_iff, List.forall₂_same]
    exact fun p _ => derivesAlternative_tagText p
  have hleaf := derives_head hf hbody
  rwa [← String.append_assoc, ← String.append_assoc] at hleaf

/-! ## 3. Phrases -/

theorem derives_phrase {field : String} (value : String) (hf : IsWord field) :
    (QueryLeaf.mk field (.phrase value)).Derives (Clause.phrase field value).text.toList := by
  refine derives_head hf ?_
  rw [quotePhrase, toList_quoted, escapeChars_eq_flatten]
  refine .phrase ?_
  rw [List.forall₂_map_right_iff, List.forall₂_same]
  exact fun c _ => derives_escapeOne_phrase c

/-! ## 4. Ranges and radii

Bounds, coordinates and units are tokens alike, so a range and a radius are two cases of one lemma about a
row of tokens (`derives_span`). -/

/-- A bound as a token; `sign` is the sign of an open end. -/
def Bound.token (sign : String) : Bound → RangeToken
  | unbounded => ⟨false, sign ++ "inf"⟩
  | inclusive value => ⟨false, value⟩
  | exclusive value => ⟨true, value⟩

/-- A bound whose value can stand in brackets. -/
def Bound.IsToken : Bound → Prop
  | unbounded => True
  | inclusive value | exclusive value => IsRun isTokenChar value.toList

theorem Bound.chars_token (sign : String) (b : Bound) :
    (b.token sign).chars = (b.text sign).toList := by
  cases b <;> simp [Bound.token, Bound.text, RangeToken.chars]

theorem Bound.isRun_token {sign : String} {b : Bound} (hs : ∀ c ∈ sign.toList, isTokenChar c = true)
    (h : b.IsToken) : IsRun isTokenChar (b.token sign).text.toList := by
  cases b with
  | unbounded =>
    refine ⟨by simp [Bound.token], fun c hc => ?_⟩
    have hinf : ∀ c ∈ "inf".toList, isTokenChar c = true := List.all_eq_true.mp rfl
    have hmem : c ∈ sign.toList ∨ c ∈ "inf".toList := by simpa [Bound.token] using hc
    rcases hmem with hc | hc
    · exact hs c hc
    · exact hinf c hc
  | inclusive value => exact h
  | exclusive value => exact h

/-- A numeral can stand in brackets. -/
theorem isRun_of_isNumeral {cs : List Char} (h : IsNumeral cs) : IsRun isTokenChar cs := by
  refine ⟨h.1, fun c hc => ?_⟩
  have hc := h.2 c hc
  have hne : ∀ d, isNumeralChar d = false → c ≠ d := by
    rintro d hd rfl
    rw [hc] at hd
    cases hd
  have h₁ := hne ' ' (by decide)
  have h₂ := hne ']' (by decide)
  have h₃ := hne '(' (by decide)
  simp [isTokenChar, h₁, h₂, h₃]

theorem derives_span {field : String} {tokens : List RangeToken} {u : String} (hf : IsWord field)
    (hne : tokens ≠ []) (hruns : ∀ t ∈ tokens, IsRun isTokenChar t.text.toList)
    (hu : u.toList = [' '].intercalate (tokens.map RangeToken.chars)) :
    (QueryLeaf.mk field (.span tokens)).Derives (Clause.head field ++ "[" ++ u ++ "]").toList := by
  have hbody : (LeafBody.span tokens).Derives ("[" ++ u ++ "]").toList := by
    have htext : ("[" ++ u ++ "]").toList
        = '[' :: [' '].intercalate (tokens.map RangeToken.chars) ++ [']'] := by
      simp [hu]
    rw [htext]
    exact .span hne hruns
  have hleaf := derives_head hf hbody
  rwa [← String.append_assoc, ← String.append_assoc] at hleaf

theorem derives_range {field : String} {low high : Bound} (hf : IsWord field) (hlow : low.IsToken)
    (hhigh : high.IsToken) :
    (QueryLeaf.mk field (.span [low.token "-", high.token ""])).Derives
      (Clause.range field low high).text.toList := by
  have hruns : ∀ t ∈ [low.token "-", high.token ""], IsRun isTokenChar t.text.toList := by
    intro t ht
    simp only [List.mem_cons, List.not_mem_nil, or_false] at ht
    rcases ht with rfl | rfl
    · exact Bound.isRun_token (List.all_eq_true.mp rfl) hlow
    · exact Bound.isRun_token (List.all_eq_true.mp rfl) hhigh
  have htext : (low.text "-" ++ " " ++ high.text "").toList
      = [' '].intercalate ([low.token "-", high.token ""].map RangeToken.chars) := by
    simp [Bound.chars_token]
  have hleaf := derives_span hf (by simp) hruns htext
  simpa only [Clause.text, String.append_assoc] using hleaf

/-- The four tokens of a radius. -/
def GeoRadius.tokens (g : GeoRadius) : List RangeToken :=
  [⟨false, g.longitude.plainText⟩, ⟨false, g.latitude.plainText⟩, ⟨false, g.radius.plainText⟩,
    ⟨false, g.unit.name⟩]

theorem derives_geo (g : GeoRadius) (hf : IsWord g.field) :
    (QueryLeaf.mk g.field (.span g.tokens)).Derives (Clause.geo g).text.toList := by
  have hunit : IsRun isTokenChar g.unit.name.toList := by
    cases g.unit <;> decide
  have hruns : ∀ t ∈ g.tokens, IsRun isTokenChar t.text.toList := by
    intro t ht
    simp only [GeoRadius.tokens, List.mem_cons, List.not_mem_nil, or_false] at ht
    rcases ht with rfl | rfl | rfl | rfl
    · exact isRun_of_isNumeral (isNumeral_plainText _)
    · exact isRun_of_isNumeral (isNumeral_plainText _)
    · exact isRun_of_isNumeral (isNumeral_plainText _)
    · exact hunit
  refine derives_span hf (by simp [GeoRadius.tokens]) hruns ?_
  simp [GeoRadius.tokens, RangeToken.chars]

end IndexQuery
