/-
# Literals are exact and end by themselves

A literal stands in a query text in one of three ways: escaped between the braces of a tag clause, in
double quotes, or in single quotes.  Whoever reads it goes from left to right and takes a backslash with
the character behind it as one sign (`signs`).  The main result, `literals_exact`, is that this reading
gives every value back and finds every end:

* in a tag value exactly the reserved and the blank characters are escaped, and nothing else is;
* a quoted text ends at the first quote that is not escaped, whatever stands behind it;
* the values of a list are what stands between the bars that are not escaped, and the first brace that is
  not escaped is the closing one.

All of it rests on one fact about the encoder, `spells_escapeChars`: a value is read character by
character, and behind it the reading is in phase again, since the backslash itself is escaped.
-/
import IndexQuery.Proofs.Filter.Meaning

namespace IndexQuery

/-! ## 1. Signs -/

/-- A character of a text, and whether a backslash is in front of it. -/
structure Sign where
  char : Char
  escaped : Bool
  deriving DecidableEq

/-- A character with no backslash in front. -/
def Sign.plain (c : Char) : Sign := ⟨c, false⟩

/-- The sign as it is written. -/
def Sign.written (x : Sign) : List Char :=
  if x.escaped then ['\\', x.char] else [x.char]

/-- **The signs of a text**, from left to right. -/
def signs : List Char → List Sign
  | '\\' :: c :: rest => ⟨c, true⟩ :: signs rest
  | c :: rest => .plain c :: signs rest
  | [] => []

/-- The text that signs stand for. -/
def literalText (xs : List Sign) : String :=
  String.ofList (xs.map Sign.char)

/-- A text without its escapes. -/
def unescape (t : String) : String :=
  literalText (signs t.toList)

theorem signs_cons_of_ne {c : Char} (h : c ≠ '\\') (rest : List Char) :
    signs (c :: rest) = .plain c :: signs rest := by
  rw [signs]
  intro d u hc _
  exact h hc

/-- Nothing of a text is lost. -/
theorem flatMap_written_signs (t : List Char) : (signs t).flatMap Sign.written = t := by
  fun_induction signs t with
  | case1 c rest ih =>
    rw [List.flatMap_cons, ih]
    rfl
  | case2 c rest _ ih =>
    rw [List.flatMap_cons, ih]
    rfl
  | case3 => rfl

/-! ## 2. Texts that are read in phase -/

/-- A text with these signs, whatever stands behind it. -/
def Spells (t : List Char) (xs : List Sign) : Prop :=
  ∀ rest, signs (t ++ rest) = xs ++ signs rest

theorem Spells.signs_eq {t : List Char} {xs : List Sign} (h : Spells t xs) : signs t = xs := by
  have hnil := h []
  rwa [signs, List.append_nil, List.append_nil] at hnil

theorem Spells.append {t u : List Char} {xs ys : List Sign} (ht : Spells t xs) (hu : Spells u ys) :
    Spells (t ++ u) (xs ++ ys) := by
  intro rest
  rw [List.append_assoc, ht, hu, List.append_assoc]

theorem spells_nil : Spells [] [] :=
  fun _ => rfl

theorem spells_singleton {c : Char} (h : c ≠ '\\') : Spells [c] [.plain c] :=
  fun rest => signs_cons_of_ne h rest

theorem spells_escaped (c : Char) : Spells ['\\', c] [⟨c, true⟩] :=
  fun _ => rfl

/-- Texts with a separator between them are spelled one by one. -/
theorem spells_intercalate {α : Type} {text : α → List Char} {xs : α → List Sign} {sep : List Char}
    {ys : List Sign} (hsep : Spells sep ys) :
    ∀ {as : List α}, (∀ a ∈ as, Spells (text a) (xs a)) →
      Spells (sep.intercalate (as.map text)) (ys.intercalate (as.map xs))
  | [], _ => spells_nil
  | [a], h => by simpa using h a (by simp)
  | a :: b :: as, h => by
    have hrest := spells_intercalate hsep fun c hc => h c (List.mem_cons_of_mem a hc)
    simp only [List.map_cons, List.intercalate_cons_cons] at hrest ⊢
    exact ((h a (by simp)).append hsep).append hrest

/-- The signs that a value is written with. -/
def signsOf (special : Char → Bool) (v : String) : List Sign :=
  v.toList.map fun c => ⟨c, special c⟩

/-- **An escaped value is spelled character by character**, if the backslash is one of those that are
escaped. -/
theorem spells_escapeChars {special : Char → Bool} (h : special '\\' = true) (v : String) :
    Spells (escapeChars special v.toList) (signsOf special v) := by
  unfold signsOf
  induction v.toList with
  | nil => exact spells_nil
  | cons c cs ih =>
    cases hc : special c with
    | true =>
      rw [escapeChars, if_pos hc, List.map_cons, hc]
      exact (spells_escaped c).append ih
    | false =>
      have hne : c ≠ '\\' := by
        rintro rfl
        rw [h] at hc
        cases hc
      rw [escapeChars, if_neg (by simp [hc]), List.map_cons, hc]
      exact (spells_singleton hne).append ih

@[simp] theorem literalText_signsOf (special : Char → Bool) (v : String) :
    literalText (signsOf special v) = v := by
  simp [literalText, signsOf, Function.comp_def]

/-- A character that is escaped does not stand there plain. -/
theorem plain_not_mem_signsOf {special : Char → Bool} {c : Char} (h : special c = true) (v : String) :
    .plain c ∉ signsOf special v := by
  intro hmem
  obtain ⟨d, -, hd⟩ := List.mem_map.mp hmem
  obtain ⟨rfl, hplain⟩ := Sign.mk.inj hd
  rw [h] at hplain
  cases hplain

/-! ## 3. Texts between delimiters -/

/-- The signs up to the first plain `stop`, and the text behind it. -/
def readUntil (stop : Char) (t : List Char) : Option (List Sign × String) :=
  match (signs t).dropWhile (· != .plain stop) with
  | [] => none
  | _ :: rest =>
    some ((signs t).takeWhile (· != .plain stop), String.ofList (rest.flatMap Sign.written))

/-- The signs between a delimiter and the first plain one that closes it, and the text behind. -/
def readBetween (left right : Char) (t : String) : Option (List Sign × String) :=
  if t.toList.head? = some left then readUntil right t.toList.tail else none

/-- A quoted text, and the text behind it. -/
def readQuoted (quote : Char) (t : String) : Option (String × String) :=
  (readBetween quote quote t).map (Prod.map literalText id)

/-- The values between braces, which are divided by plain bars, and the text behind them. -/
def readBraces (t : String) : Option (List String × String) :=
  (readBetween '\x7b' '\x7d' t).map
    (Prod.map (fun xs => (xs.splitOn (.plain '|')).map literalText) id)

theorem readUntil_append {t : List Char} {xs : List Sign} (ht : Spells t xs) {stop : Char}
    (hstop : stop ≠ '\\') (hxs : .plain stop ∉ xs) (rest : String) :
    readUntil stop (t ++ stop :: rest.toList) = some (xs, rest) := by
  have hsigns : signs (t ++ stop :: rest.toList) = xs ++ .plain stop :: signs rest.toList := by
    rw [ht, signs_cons_of_ne hstop]
  have hinside : ∀ x ∈ xs, (x != .plain stop) = true := by
    intro x hx
    rw [bne_iff_ne]
    rintro rfl
    exact hxs hx
  have hclose : ∀ x ∈ (Sign.plain stop :: signs rest.toList).head?, (x != .plain stop) = false := by
    simp
  obtain ⟨htake, hdrop⟩ := span_append hinside hclose
  rw [readUntil, hsigns, htake, hdrop]
  simp [flatMap_written_signs]

/-- **What is spelled between two delimiters ends at the second one**, if that does not stand plain in
between. -/
theorem readBetween_enclosed {t : List Char} {xs : List Sign} (ht : Spells t xs) (left : Char)
    {right : Char} (hright : right ≠ '\\') (hxs : .plain right ∉ xs) (rest : String) :
    readBetween left right (String.ofList (left :: t ++ [right]) ++ rest) = some (xs, rest) := by
  have hlist : (String.ofList (left :: t ++ [right]) ++ rest).toList
      = left :: (t ++ right :: rest.toList) := by
    simp
  rw [readBetween, hlist, List.head?_cons, if_pos rfl, List.tail_cons]
  exact readUntil_append ht hright hxs rest

theorem readQuoted_quoted {quote : Char} (hquote : quote ≠ '\\') (v rest : String) :
    readQuoted quote (quoted quote v ++ rest) = some (v, rest) := by
  have hspells : Spells (escapeChars (isQuoteSpecial quote) v.toList)
      (signsOf (isQuoteSpecial quote) v) :=
    spells_escapeChars (by simp [isQuoteSpecial]) v
  have hinside : .plain quote ∉ signsOf (isQuoteSpecial quote) v :=
    plain_not_mem_signsOf (by simp [isQuoteSpecial]) v
  rw [readQuoted, quoted, readBetween_enclosed hspells quote hquote hinside]
  simp

/-! ## 4. Lists of values -/

/-- The values of a list with bars between them. -/
def barredText (values : List String) : String :=
  "|".intercalate (values.map escapeTag)

/-- **The values of a list are told apart by the plain bars**, and the first plain brace closes it. -/
theorem readBraces_barredText {values : List String} (hne : values ≠ []) (rest : String) :
    readBraces ("\x7b" ++ barredText values ++ "\x7d" ++ rest) = some (values, rest) := by
  have hspells : Spells (['|'].intercalate (values.map fun v => escapeChars isTagSpecial v.toList))
      ([Sign.plain '|'].intercalate (values.map (signsOf isTagSpecial))) :=
    spells_intercalate (spells_singleton (by decide)) fun v _ => spells_escapeChars (by decide) v
  have hclose : Sign.plain '\x7d' ∉ [Sign.plain '|'].intercalate (values.map (signsOf isTagSpecial)) := by
    intro hmem
    rcases mem_intercalate hmem with hbar | ⟨xs, hxs, hx⟩
    · simp [Sign.plain] at hbar
    · obtain ⟨v, -, rfl⟩ := List.mem_map.mp hxs
      exact plain_not_mem_signsOf (by decide) v hx
  have htext : "\x7b" ++ barredText values ++ "\x7d" = String.ofList ('\x7b' ::
      ['|'].intercalate (values.map fun v => escapeChars isTagSpecial v.toList) ++ ['\x7d']) := by
    apply String.toList_inj.mp
    simp [barredText, escapeTag, Function.comp_def]
  have hsplit : ([Sign.plain '|'].intercalate (values.map (signsOf isTagSpecial))).splitOn (.plain '|')
      = values.map (signsOf isTagSpecial) := by
    refine List.splitOn_intercalate (Sign.plain '|') (fun xs hxs => ?_) (by simpa using hne)
    obtain ⟨v, -, rfl⟩ := List.mem_map.mp hxs
    exact plain_not_mem_signsOf (by decide) v
  rw [readBraces, htext, readBetween_enclosed hspells _ (by decide) hclose]
  simp [hsplit, Function.comp_def]

/-- The text of a test for one of several values of a tag field. -/
theorem filterText_membership {s : Schema} {list item : Expr} {field : String} {values : List Json}
    (hlist : list.HasValue (.arr values)) (hne : values ≠ []) (hitem : item.RefersTo field)
    (hfield : s.Searches field .tag) :
    filterText s (.call "Contains" [list, item])
      = .ok (Clause.head field ++ "\x7b" ++ barredText (values.map Json.plain) ++ "\x7d") := by
  have hfilter : (Test.oneOf values).filter? field .tag
      = some (.clause (.tag field (values.map fun v => ⟨v.plain, false, false⟩))) := by
    cases values with
    | nil => exact absurd rfl hne
    | cons v values => rfl
  have hcall : Filter.build s .alone (.call "Contains" [list, item])
      = .ok (.clause (.tag field (values.map fun v => ⟨v.plain, false, false⟩))) :=
    Filter.ofCall_eq_ok.mpr ⟨field, _, .tag, .oneOf hlist hitem, hfield, hfilter⟩
  have hpattern : ∀ v : Json, Pattern.tagText ⟨v.plain, false, false⟩ = escapeTag v.plain := by
    intro v
    simp [Pattern.tagText, Pattern.around]
  rw [filterText, Filter.ofExpr, hcall]
  simp [Except.map, Filter.text, Clause.text, barredText, Function.comp_def, hpattern]

/-! ## 5. All three encoders -/

/-- In a tag value the reserved and the blank characters are escaped, and no others. -/
theorem signs_escapeTag (v : String) : signs (escapeTag v).toList = signsOf isTagSpecial v := by
  rw [escapeTag, toList_escape]
  exact (spells_escapeChars (by decide) v).signs_eq

/-- **Literals are exact and end by themselves.** -/
theorem literals_exact :
    (∀ v : String, unescape (escapeTag v) = v ∧
      ∀ x ∈ signs (escapeTag v).toList,
        x.escaped = true ↔ x.char ∈ tagReserved ∨ isBlank x.char = true) ∧
    (∀ v rest : String, readQuoted '"' (quotePhrase v ++ rest) = some (v, rest) ∧
      readQuoted '\'' (quoteString v ++ rest) = some (v, rest)) ∧
    ∀ (s : Schema) (list item : Expr) (field : String) (values : List Json),
      list.HasValue (.arr values) → values ≠ [] → item.RefersTo field → s.Searches field .tag →
      ∃ content,
        filterText s (.call "Contains" [list, item])
          = .ok (Clause.head field ++ "\x7b" ++ content ++ "\x7d") ∧
        ∀ rest, readBraces ("\x7b" ++ content ++ "\x7d" ++ rest)
          = some (values.map Json.plain, rest) := by
  refine ⟨fun v => ⟨?_, fun x hx => ?_⟩, fun v rest => ⟨?_, ?_⟩, ?_⟩
  · rw [unescape, signs_escapeTag, literalText_signsOf]
  · rw [signs_escapeTag] at hx
    obtain ⟨c, -, rfl⟩ := List.mem_map.mp hx
    simp [isTagSpecial]
  · exact readQuoted_quoted (by decide) v rest
  · exact readQuoted_quoted (by decide) v rest
  · intro s list item field values hlist hne hitem hfield
    exact ⟨_, filterText_membership hlist hne hitem hfield,
      fun rest => readBraces_barredText (by simpa using hne) rest⟩

/-- Values that are empty, or hold the delimiters and the backslash. -/
def awkwardTags : List Json :=
  [.str "a|b", .str "", .str "\\", .str "\\|\x7d", .bool true]

theorem literals_exact_awkwardTags :
    (Expr.constant (.arr awkwardTags)).HasValue (.arr awkwardTags) ∧ awkwardTags ≠ [] ∧
    (Expr.unary .convert (.member "name")).RefersTo "name" ∧ sampleSchema.Searches "name" .tag ∧
    ∃ content,
      filterText sampleSchema
          (.call "Contains" [.constant (.arr awkwardTags), .unary .convert (.member "name")])
        = .ok (Clause.head "name" ++ "\x7b" ++ content ++ "\x7d") ∧
      ∀ rest, readBraces ("\x7b" ++ content ++ "\x7d" ++ rest)
        = some (["a|b", "", "\\", "\\|\x7d", "true"], rest) := by
  have hlist : (Expr.constant (.arr awkwardTags)).HasValue (.arr awkwardTags) := .constant _
  have hne : awkwardTags ≠ [] := by simp [awkwardTags]
  have hitem : (Expr.unary .convert (.member "name")).RefersTo "name" := .convert (.member _)
  have hfield : sampleSchema.Searches "name" .tag := by decide
  exact ⟨hlist, hne, hitem, hfield, literals_exact.2.2 _ _ _ _ _ hlist hne hitem hfield⟩

end IndexQuery
