/-
# A parser of the query language

`parseQuery` reads a whole text to its tree, and `parseQuery_eq_some_iff` says that it is a parser
of the grammar and of nothing else: it returns a tree exactly if the grammar derives the text from
that tree.  So a text has at most one tree, although a tree has many texts.

Every part of the language ends by itself: braces, quotes and brackets are closed, a name ends at
its colon, and an item at the end of its last part.  That is why a reader needs no look at what
follows.  Each reader has two lemmas: `_complete`, on any text of its part with anything behind it
the reader returns the value and all that stands behind, and `_sound`, whatever it returns it has
read from such a text.

Items nest, so their reader counts down `fuel`.  The length of a text is always enough
(`readItem_complete`), since each step down leaves a character behind.
-/
import IndexQuery.Proofs.Query.Grammar
import IndexQuery.Proofs.Reader

namespace IndexQuery

/-! ## 1. Tag alternatives

Alternatives and pieces are read in one pass from the left, while the value is built from the right: a piece
goes in front of the first alternative of what follows, a bar opens a new one there, and the closing brace is
one alternative without pieces.  So the reader never returns an empty list, and neither does the grammar
derive one. -/

/-- One more piece at the beginning of the first alternative. -/
def prependPiece (p : TagPiece) : List (List TagPiece) → List (List TagPiece)
  | [] => [[p]]
  | a :: as => (p :: a) :: as

/-- The alternatives up to the closing brace. -/
def readTags : List Char → Option (List (List TagPiece) × List Char)
  | '\x7d' :: rest => some ([[]], rest)
  | '|' :: rest => (readTags rest).map (Prod.map (List.cons []) id)
  | '*' :: rest => (readTags rest).map (Prod.map (prependPiece .wildcard) id)
  | '\\' :: c :: rest => (readTags rest).map (Prod.map (prependPiece (.char c)) id)
  | c :: rest =>
    if isTagPlain c then (readTags rest).map (Prod.map (prependPiece (.char c)) id) else none
  | [] => none

/-- A character without a meaning of its own stands for itself.  The patterns of the reader overlap, and
this is the one place that has to know it. -/
theorem readTags_plain {c : Char} (h : isTagPlain c = true) (s : List Char) :
    readTags (c :: s) = (readTags s).map (Prod.map (prependPiece (.char c)) id) := by
  have hne : c ≠ '\\' ∧ c ≠ '*' ∧ c ≠ '|' ∧ c ≠ '\x7d' := by
    simpa [isTagPlain, and_assoc] using h
  rw [readTags]
  · rw [if_pos h]
  all_goals simp_all

/-- A piece in front of the text is a piece in front of the first alternative. -/
theorem readTags_piece {p : TagPiece} {u : List Char} (h : p.Derives u) (s : List Char) :
    readTags (u ++ s) = (readTags s).map (Prod.map (prependPiece p) id) := by
  cases h with
  | wildcard => rfl
  | plain hc => exact readTags_plain hc s
  | escaped c => rfl

/-- Pieces in front of the text are pieces in front of the first alternative. -/
theorem readTags_pieces {pieces : List TagPiece} {us : List (List Char)}
    (h : List.Forall₂ TagPiece.Derives pieces us) {s rest : List Char}
    {first : List TagPiece} {others : List (List TagPiece)}
    (hs : readTags s = some (first :: others, rest)) :
    readTags (us.flatten ++ s) = some ((pieces ++ first) :: others, rest) := by
  induction h with
  | nil => exact hs
  | cons hp _ ih =>
    rw [List.flatten_cons, List.append_assoc, readTags_piece hp, ih]
    rfl

/-- Every text of alternatives is read.  The induction is on the alternatives; inside one of them the pieces
are put in front all at once. -/
theorem readTags_complete {alternatives : List (List TagPiece)} {us : List (List Char)}
    (hne : alternatives ≠ []) (h : List.Forall₂ DerivesAlternative alternatives us)
    (rest : List Char) :
    readTags (['|'].intercalate us ++ '\x7d' :: rest) = some (alternatives, rest) := by
  induction h with
  | nil => exact absurd rfl hne
  | @cons a u as us ha has ih =>
    obtain ⟨ws, hws, rfl⟩ := ha
    cases has with
    | nil =>
      have hclose : readTags ('\x7d' :: rest) = some ([[]], rest) := rfl
      simpa using readTags_pieces hws hclose
    | @cons a' u' as us ha' has =>
      have htail : readTags ('|' :: (['|'].intercalate (u' :: us) ++ '\x7d' :: rest))
          = some ([] :: a' :: as, rest) := by
        rw [readTags, ih (by simp)]
        rfl
      simpa using readTags_pieces hws htail

/-- What a reader of alternatives has read when it returns. -/
def IsTagsText (alternatives : List (List TagPiece)) (s rest : List Char) : Prop :=
  alternatives ≠ [] ∧ ∃ us, List.Forall₂ DerivesAlternative alternatives us ∧
    s = ['|'].intercalate us ++ '\x7d' :: rest

/-- A piece more in front of the text.  All three rules that put a piece there are cases of this. -/
theorem IsTagsText.prepend {p : TagPiece} {u s rest : List Char}
    {alternatives : List (List TagPiece)} (hp : p.Derives u)
    (h : IsTagsText alternatives s rest) :
    IsTagsText (prependPiece p alternatives) (u ++ s) rest := by
  obtain ⟨hne, us, hus, rfl⟩ := h
  cases hus with
  | nil => exact absurd rfl hne
  | @cons a v as vs ha has =>
    obtain ⟨ws, hws, rfl⟩ := ha
    refine ⟨by simp [prependPiece], (u ++ ws.flatten) :: vs,
      .cons ⟨u :: ws, .cons hp hws, rfl⟩ has, ?_⟩
    cases vs <;> simp

/-- Nothing else is read, by the recursion of the reader. -/
theorem readTags_sound {s rest : List Char} {alternatives : List (List TagPiece)}
    (h : readTags s = some (alternatives, rest)) : IsTagsText alternatives s rest := by
  fun_induction readTags s generalizing alternatives with
  | case1 r =>
    obtain ⟨rfl, rfl⟩ := Prod.mk.inj (Option.some.inj h)
    exact ⟨by simp, [[]], .cons ⟨[], .nil, rfl⟩ .nil, rfl⟩
  | case2 r ih =>
    obtain ⟨as', hr, rfl⟩ := map_value_eq_some h
    obtain ⟨hne, us, hus, rfl⟩ := ih hr
    refine ⟨by simp, [] :: us, .cons ⟨[], .nil, rfl⟩ hus, ?_⟩
    -- the bar is a separator only if an alternative follows, and one does
    cases hus with
    | nil => exact absurd rfl hne
    | cons _ _ => simp
  | case3 r ih =>
    obtain ⟨as', hr, rfl⟩ := map_value_eq_some h
    exact (ih hr).prepend .wildcard
  | case4 c r ih =>
    obtain ⟨as', hr, rfl⟩ := map_value_eq_some h
    exact (ih hr).prepend (.escaped c)
  | case5 c r _ _ _ _ hc ih =>
    obtain ⟨as', hr, rfl⟩ := map_value_eq_some h
    exact (ih hr).prepend (.plain hc)
  | case6 => cases h
  | case7 => cases h

/-! ## 2. Phrases

A phrase is read character by character.  A backslash takes the character behind it as it is, whatever that
is, so the grammar leaves open which characters a writer escapes. -/

/-- The characters of a phrase up to the closing quote. -/
def readPhrase : List Char → Option (List Char × List Char)
  | '"' :: rest => some ([], rest)
  | '\\' :: c :: rest => (readPhrase rest).map (Prod.map (List.cons c) id)
  | c :: rest => if isPhrasePlain c then (readPhrase rest).map (Prod.map (List.cons c) id) else none
  | [] => none

theorem readPhrase_plain {c : Char} (h : isPhrasePlain c = true) (s : List Char) :
    readPhrase (c :: s) = (readPhrase s).map (Prod.map (List.cons c) id) := by
  have hne : c ≠ '\\' ∧ c ≠ '"' := by simpa [isPhrasePlain] using h
  rw [readPhrase]
  · rw [if_pos h]
  all_goals simp_all

theorem readPhrase_complete {cs : List Char} {us : List (List Char)}
    (h : List.Forall₂ DerivesPhraseChar cs us) (rest : List Char) :
    readPhrase (us.flatten ++ '"' :: rest) = some (cs, rest) := by
  induction h with
  | nil => rfl
  | @cons c u cs us hc _ ih =>
    rw [List.flatten_cons, List.append_assoc]
    cases hc with
    | plain hc =>
      rw [List.singleton_append, readPhrase_plain hc, ih]
      rfl
    | escaped =>
      show (readPhrase (us.flatten ++ '"' :: rest)).map (Prod.map (List.cons c) id) = _
      rw [ih]
      rfl

theorem readPhrase_sound {s cs rest : List Char} (h : readPhrase s = some (cs, rest)) :
    ∃ us, List.Forall₂ DerivesPhraseChar cs us ∧ s = us.flatten ++ '"' :: rest := by
  fun_induction readPhrase s generalizing cs with
  | case1 r =>
    obtain ⟨rfl, rfl⟩ := Prod.mk.inj (Option.some.inj h)
    exact ⟨[], .nil, rfl⟩
  | case2 c r ih =>
    obtain ⟨cs', hr, rfl⟩ := map_value_eq_some h
    obtain ⟨us, hus, rfl⟩ := ih hr
    exact ⟨['\\', c] :: us, .cons (.escaped c) hus, rfl⟩
  | case3 c r _ _ hc ih =>
    obtain ⟨cs', hr, rfl⟩ := map_value_eq_some h
    obtain ⟨us, hus, rfl⟩ := ih hr
    exact ⟨[c] :: us, .cons (.plain hc) hus, rfl⟩
  | case4 => cases h
  | case5 => cases h

/-! ## 3. Tokens in square brackets

Here nothing is escaped.  Tokens hold neither blanks nor brackets, so the text up to the closing bracket is
cut at its blanks, and each piece is a token or is not. -/

/-- The mark of an exclusive bound, and what it marks. -/
def splitMark : List Char → Bool × List Char
  | '(' :: text => (true, text)
  | text => (false, text)

/-- A token, with the mark of an exclusive bound or without. -/
def readToken (u : List Char) : Option RangeToken :=
  if IsRun isTokenChar (splitMark u).2 then
    some ⟨(splitMark u).1, String.ofList (splitMark u).2⟩
  else none

/-- The mark of a token is found again, since no token begins with it. -/
theorem splitMark_chars {t : RangeToken} (h : IsRun isTokenChar t.text.toList) :
    splitMark t.chars = (t.exclusive, t.text.toList) := by
  unfold RangeToken.chars
  cases t.exclusive with
  | true => rfl
  | false =>
    rw [if_neg (by simp)]
    unfold splitMark
    split
    · next text heq =>
      -- the mark is no character of a token
      have hmark := h.2 '(' (by simp [heq])
      exact absurd hmark (by decide)
    · rfl

theorem readToken_eq_some_iff {u : List Char} {t : RangeToken} :
    readToken u = some t ↔ IsRun isTokenChar t.text.toList ∧ u = t.chars := by
  constructor
  · intro h
    unfold readToken at h
    split at h
    · next hrun =>
      cases h
      refine ⟨by simpa using hrun, ?_⟩
      unfold RangeToken.chars splitMark
      split <;> simp
    · cases h
  · rintro ⟨hrun, rfl⟩
    unfold readToken
    rw [splitMark_chars hrun, if_pos hrun, String.ofList_toList]

/-- A character of a token is no delimiter. -/
theorem not_mem_chars {t : RangeToken} (h : IsRun isTokenChar t.text.toList) {c : Char}
    (hc : c = ' ' ∨ c = ']') : c ∉ t.chars := by
  have hrun : c ∉ t.text.toList := by
    intro hmem
    have := h.2 c hmem
    rcases hc with rfl | rfl <;> exact absurd this (by decide)
  unfold RangeToken.chars
  split
  · rcases hc with rfl | rfl <;> simpa using hrun
  · exact hrun

/-- The tokens up to the closing bracket. -/
def readSpan (s : List Char) : Option (List RangeToken × List Char) :=
  match s.dropWhile (· != ']') with
  | [] => none
  | _ :: rest => (((s.takeWhile (· != ']')).splitOn ' ').mapM readToken).map (·, rest)

/-- Cutting the text of several tokens gives them back: no token has the bracket in it that ends the text,
nor the blank at which the text is cut. -/
theorem readSpan_complete {ts : List RangeToken} (hne : ts ≠ [])
    (h : ∀ t ∈ ts, IsRun isTokenChar t.text.toList) (rest : List Char) :
    readSpan ([' '].intercalate (ts.map RangeToken.chars) ++ ']' :: rest) = some (ts, rest) := by
  have hinside : ∀ c ∈ [' '].intercalate (ts.map RangeToken.chars), (c != ']') = true := by
    intro c hc
    rcases mem_intercalate hc with hc | ⟨u, hu, hc⟩
    · simp at hc
      simp [hc]
    · obtain ⟨t, ht, rfl⟩ := List.mem_map.mp hu
      simpa using fun heq : c = ']' => not_mem_chars (h t ht) (.inr heq) hc
  have hsplit : ([' '].intercalate (ts.map RangeToken.chars)).splitOn ' '
      = ts.map RangeToken.chars := by
    refine List.splitOn_intercalate ' ' ?_ (by simpa using hne)
    intro u hu
    obtain ⟨t, ht, rfl⟩ := List.mem_map.mp hu
    exact not_mem_chars (h t ht) (.inl rfl)
  unfold readSpan
  rw [List.dropWhile_append_of_pos hinside, List.takeWhile_append_of_pos hinside]
  have htokens : (([' '].intercalate (ts.map RangeToken.chars)).splitOn ' ').mapM readToken
      = some ts := (mapM_eq_some_iff readToken_eq_some_iff).mpr ⟨h, hsplit⟩
  simp [htokens]

theorem readSpan_sound {s rest : List Char} {ts : List RangeToken}
    (h : readSpan s = some (ts, rest)) :
    ts ≠ [] ∧ (∀ t ∈ ts, IsRun isTokenChar t.text.toList) ∧
      s = [' '].intercalate (ts.map RangeToken.chars) ++ ']' :: rest := by
  unfold readSpan at h
  split at h
  · cases h
  · next c r hdrop =>
    obtain ⟨ts', hts, heq⟩ := Option.map_eq_some_iff.mp h
    obtain ⟨rfl, rfl⟩ := Prod.mk.inj heq
    obtain ⟨hruns, hus⟩ := (mapM_eq_some_iff readToken_eq_some_iff).mp hts
    -- what is left when the search stops begins with what it looked for
    have hc : c = ']' := by
      have := List.head_dropWhile_not (· != ']') (l := s) (by simp [hdrop])
      simpa [hdrop] using this
    subst hc
    refine ⟨?_, hruns, ?_⟩
    · intro hnil
      rw [hnil, List.map_nil] at hus
      exact List.splitOn_ne_nil _ _ hus
    · rw [← hus, List.intercalate_splitOn, ← hdrop, List.takeWhile_append_dropWhile]

/-! ## 4. Leaves

What a leaf says of its field begins with one of three characters, and that character decides which of the
readers above goes on. -/

/-- What a leaf says of its field. -/
def readBody : List Char → Option (LeafBody × List Char)
  | '\x7b' :: s => (readTags s).map (Prod.map .tags id)
  | '"' :: s => (readPhrase s).map (Prod.map (fun cs => .phrase (String.ofList cs)) id)
  | '[' :: s => (readSpan s).map (Prod.map .span id)
  | _ => none

theorem readBody_complete {body : LeafBody} {u : List Char} (h : body.Derives u)
    (rest : List Char) : readBody (u ++ rest) = some (body, rest) := by
  cases h with
  | tags hne hus => simp [readBody, readTags_complete hne hus]
  | phrase hus => simp [readBody, readPhrase_complete hus]
  | span hne hruns => simp [readBody, readSpan_complete hne hruns]

theorem readBody_sound {s rest : List Char} {body : LeafBody}
    (h : readBody s = some (body, rest)) : ∃ u, body.Derives u ∧ s = u ++ rest := by
  unfold readBody at h
  split at h
  · obtain ⟨alternatives, hr, rfl⟩ := map_value_eq_some h
    obtain ⟨hne, us, hus, rfl⟩ := readTags_sound hr
    exact ⟨_, .tags hne hus, by simp⟩
  · obtain ⟨cs, hr, rfl⟩ := map_value_eq_some h
    obtain ⟨us, hus, rfl⟩ := readPhrase_sound hr
    have hvalue : List.Forall₂ DerivesPhraseChar (String.ofList cs).toList us := by
      rwa [String.toList_ofList]
    exact ⟨_, .phrase hvalue, by simp⟩
  · obtain ⟨ts, hr, rfl⟩ := map_value_eq_some h
    obtain ⟨hne, hruns, rfl⟩ := readSpan_sound hr
    exact ⟨_, .span hne hruns, by simp⟩
  · cases h

/-- A leaf, behind its sign: the name up to the colon, then what is said of it. -/
def readLeaf (s : List Char) : Option (QueryLeaf × List Char) :=
  let name := s.takeWhile isWordChar
  match s.dropWhile isWordChar with
  | ':' :: s =>
    if name.isEmpty then none
    else (readBody s).map (Prod.map (fun body => ⟨String.ofList name, body⟩) id)
  | _ => none

theorem readLeaf_complete {field : String} {body : LeafBody} {u : List Char}
    (hf : IsWord field) (hb : body.Derives u) (rest : List Char) :
    readLeaf (field.toList ++ ':' :: (u ++ rest)) = some (⟨field, body⟩, rest) := by
  have hcolon : isWordChar ':' = false := by decide
  have hne : field.toList ≠ [] := hf.1
  unfold readLeaf
  rw [List.dropWhile_append_of_pos hf.2, List.takeWhile_append_of_pos hf.2]
  simp [hcolon, readBody_complete hb, hne]

theorem readLeaf_sound {s rest : List Char} {l : QueryLeaf} (h : readLeaf s = some (l, rest)) :
    ∃ u, l.Derives u ∧ '@' :: s = u ++ rest := by
  unfold readLeaf at h
  simp only at h
  split at h
  · next s' hdrop =>
    split at h
    · cases h
    · next hne =>
      obtain ⟨body, hr, rfl⟩ := map_value_eq_some h
      obtain ⟨u, hu, rfl⟩ := readBody_sound hr
      have hword : IsWord (String.ofList (s.takeWhile isWordChar)) := by
        refine ⟨by simpa using hne, fun c hc => ?_⟩
        exact List.all_eq_true.mp List.all_takeWhile c (by simpa using hc)
      refine ⟨_, .mk hword hu, ?_⟩
      have hs : s = s.takeWhile isWordChar ++ ':' :: (u ++ rest) := by
        rw [← hdrop, List.takeWhile_append_dropWhile]
      rw [String.toList_ofList, List.append_assoc, List.cons_append, List.cons_append, ← hs]
  · cases h

/-! ## 5. Items

An item in parentheses is read first, and what stands behind it decides what the parentheses are for: closed
at once they only group, and otherwise the separator behind the first item is the separator of all.  So a
pair of parentheses never mixes junctions, and a single item in it is no junction. -/

/-- The junction whose separator stands next. -/
def junction? : List Char → Option Junction
  | ' ' :: '|' :: _ => some .any
  | ' ' :: _ => some .all
  | _ => none

/-- What stands behind the separator. -/
def Junction.strip : Junction → List Char → Option (List Char)
  | all, ' ' :: s => some s
  | any, ' ' :: '|' :: ' ' :: s => some s
  | _, _ => none

mutual

/-- The item at the beginning of a text. -/
def readItem : Nat → List Char → Option (QueryTree × List Char)
  | fuel + 1, '-' :: s => (readItem fuel s).map (Prod.map .negation id)
  | fuel + 1, '(' :: s => do
    let (t, rest) ← readItem fuel s
    match rest with
    | ')' :: rest => some (t, rest)
    | rest => do
      let op ← junction? rest
      (readTail fuel op rest).map (Prod.map (fun ts => .joined op (t :: ts)) id)
  | _ + 1, '@' :: s => (readLeaf s).map (Prod.map .leaf id)
  | _, _ => none

/-- The other items of a pair of parentheses, each behind a separator. -/
def readTail : Nat → Junction → List Char → Option (List QueryTree × List Char)
  | _, _, ')' :: rest => some ([], rest)
  | fuel + 1, op, s => do
    let s ← op.strip s
    let (t, rest) ← readItem fuel s
    (readTail fuel op rest).map (Prod.map (t :: ·) id)
  | 0, _, _ => none

end

/-- **The tree of a whole text.** -/
def parseQuery (text : String) : Option QueryTree :=
  match readItem text.toList.length text.toList with
  | some (t, []) => some t
  | _ => none

@[simp] theorem Junction.strip_separator (op : Junction) (s : List Char) :
    op.strip (op.separator ++ s) = some s := by
  cases op <;> rfl

theorem Junction.eq_separator_append_of_strip {op : Junction} {s s' : List Char}
    (h : op.strip s = some s') : s = op.separator ++ s' := by
  unfold Junction.strip at h
  split at h
  · cases h
    rfl
  · cases h
    rfl
  · cases h

/-- An item is not empty, and it does not begin like a separator or a closing parenthesis. -/
theorem QueryTree.Derives.exists_cons {t : QueryTree} {u : List Char} (h : t.Derives u) :
    ∃ c s, u = c :: s ∧ c ≠ '|' ∧ c ≠ ')' := by
  cases h with
  | leaf hl =>
    cases hl with
    | mk _ _ => exact ⟨'@', _, rfl, by decide, by decide⟩
  | negation _ => exact ⟨'-', _, rfl, by decide, by decide⟩
  | group _ => exact ⟨'(', _, rfl, by decide, by decide⟩
  | joined _ _ => exact ⟨'(', _, rfl, by decide, by decide⟩

/-- A separator is known from its first two characters.  The blank of a conjunction is also the first
character of the other separator, and what tells them apart is that no item begins with a bar. -/
theorem junction?_separator (op : Junction) {t : QueryTree} {u : List Char} (h : t.Derives u)
    (s : List Char) : junction? (op.separator ++ (u ++ s)) = some op := by
  obtain ⟨c, v, rfl, hbar, -⟩ := h.exists_cons
  cases op with
  | all =>
    show junction? (' ' :: c :: (v ++ s)) = some .all
    unfold junction?
    split
    · next heq =>
      simp only [List.cons.injEq] at heq
      exact absurd heq.2.1 hbar
    · rfl
    · next hno => exact absurd rfl (hno _)
  | any => rfl

/-- The items behind the first one, each with its separator. -/
def tailText (op : Junction) (us : List (List Char)) : List Char :=
  us.flatMap (op.separator ++ ·)

theorem intercalate_cons (op : Junction) (u : List Char) : ∀ us : List (List Char),
    op.separator.intercalate (u :: us) = u ++ tailText op us
  | [] => by simp [tailText]
  | v :: us => by
    rw [List.intercalate_cons_cons, intercalate_cons op v us]
    simp [tailText]

/-! ## 6. One step of the reader

What the reader does at an opening parenthesis and at a separator, forwards and backwards.  Both
directions of the main result go by these and never open the reader again. -/

theorem junction?_ne_close {s : List Char} {op : Junction} (h : junction? s = some op)
    (rest : List Char) : s ≠ ')' :: rest := by
  rintro rfl
  cases h

theorem readItem_group {fuel : Nat} {s rest : List Char} {t : QueryTree}
    (h : readItem fuel s = some (t, ')' :: rest)) :
    readItem (fuel + 1) ('(' :: s) = some (t, rest) := by
  rw [readItem, h]
  rfl

theorem readItem_joined {fuel : Nat} {s s' rest : List Char} {t : QueryTree} {op : Junction}
    {ts : List QueryTree} (h : readItem fuel s = some (t, s')) (hop : junction? s' = some op)
    (hts : readTail fuel op s' = some (ts, rest)) :
    readItem (fuel + 1) ('(' :: s) = some (.joined op (t :: ts), rest) := by
  rw [readItem, h]
  simp only [Option.bind_eq_bind, Option.bind_some]
  split
  · exact absurd rfl (junction?_ne_close hop _)
  · rw [hop, Option.bind_some, hts]
    rfl

/-- All that a step can have been. -/
theorem readItem_cases {fuel : Nat} {s rest : List Char} {t : QueryTree}
    (h : readItem fuel s = some (t, rest)) :
    ∃ n, fuel = n + 1 ∧
      ((∃ s' t', s = '-' :: s' ∧ readItem n s' = some (t', rest) ∧ t = .negation t') ∨
      (∃ s', s = '(' :: s' ∧ readItem n s' = some (t, ')' :: rest)) ∨
      (∃ s' t' s'' op ts, s = '(' :: s' ∧ readItem n s' = some (t', s'') ∧
        junction? s'' = some op ∧ readTail n op s'' = some (ts, rest) ∧
        t = .joined op (t' :: ts)) ∨
      (∃ s' l, s = '@' :: s' ∧ readLeaf s' = some (l, rest) ∧ t = .leaf l)) := by
  unfold readItem at h
  split at h
  · next n s' =>
    obtain ⟨t', hr, rfl⟩ := map_value_eq_some h
    exact ⟨n, rfl, .inl ⟨s', t', rfl, hr, rfl⟩⟩
  · next n s' =>
    obtain ⟨⟨t', s''⟩, hr, h⟩ := Option.bind_eq_some_iff.mp h
    simp only at h
    split at h
    · cases h
      exact ⟨n, rfl, .inr (.inl ⟨s', rfl, hr⟩)⟩
    · obtain ⟨op, hop, h⟩ := Option.bind_eq_some_iff.mp h
      obtain ⟨ts, hts, rfl⟩ := map_value_eq_some h
      exact ⟨n, rfl, .inr (.inr (.inl ⟨s', t', s'', op, ts, rfl, hr, hop, hts, rfl⟩))⟩
  · next n s' =>
    obtain ⟨l, hr, rfl⟩ := map_value_eq_some h
    exact ⟨n, rfl, .inr (.inr (.inr ⟨s', l, rfl, hr, rfl⟩))⟩
  · cases h

theorem readTail_separator {fuel : Nat} {op : Junction} {s s' rest : List Char} {t : QueryTree}
    {ts : List QueryTree} (h : readItem fuel s = some (t, s'))
    (hts : readTail fuel op s' = some (ts, rest)) :
    readTail (fuel + 1) op (op.separator ++ s) = some (t :: ts, rest) := by
  rw [readTail]
  · simp [h, hts]
  · intro r heq
    cases op <;> simp [Junction.separator] at heq

/-- The tail has ended, or one more item stands behind a separator. -/
theorem readTail_cases {fuel : Nat} {op : Junction} {s rest : List Char} {ts : List QueryTree}
    (h : readTail fuel op s = some (ts, rest)) :
    (s = ')' :: rest ∧ ts = []) ∨
      ∃ n s' t s'' ts', fuel = n + 1 ∧ s = op.separator ++ s' ∧ readItem n s' = some (t, s'') ∧
        readTail n op s'' = some (ts', rest) ∧ ts = t :: ts' := by
  unfold readTail at h
  split at h
  · cases h
    exact .inl ⟨rfl, rfl⟩
  · next n _ =>
    obtain ⟨s', hstrip, h⟩ := Option.bind_eq_some_iff.mp h
    obtain ⟨⟨t, s''⟩, hitem, h⟩ := Option.bind_eq_some_iff.mp h
    obtain ⟨ts', hts, rfl⟩ := map_value_eq_some h
    exact .inr ⟨n, s', t, s'', ts', rfl, op.eq_separator_append_of_strip hstrip, hitem, hts, rfl⟩
  · cases h

/-! ## 7. The reader is exact

Items and tails call each other, each with less fuel, so both halves are proved for the two at once. -/

/-- **Every item is read.**  The induction is on the fuel, for items and for their tails together;
each recursive call is on a text that is shorter by at least one character. -/
theorem readItem_complete (fuel : Nat) :
    (∀ {t : QueryTree} {u : List Char}, t.Derives u → u.length ≤ fuel →
      ∀ rest, readItem fuel (u ++ rest) = some (t, rest)) ∧
    (∀ (op : Junction) {ts : List QueryTree} {us : List (List Char)},
      List.Forall₂ QueryTree.Derives ts us → (tailText op us).length ≤ fuel →
      ∀ rest, readTail fuel op (tailText op us ++ ')' :: rest) = some (ts, rest)) := by
  induction fuel with
  | zero =>
    constructor
    · intro t u h hlen rest
      obtain ⟨c, s, rfl, -⟩ := h.exists_cons
      simp at hlen
    · intro op ts us h hlen rest
      cases h with
      | nil => rfl
      | cons _ _ => cases op <;> simp [tailText, Junction.separator] at hlen
  | succ fuel ih =>
    obtain ⟨hitem, htail⟩ := ih
    constructor
    · intro t u h hlen rest
      cases h with
      | leaf hl =>
        cases hl with
        | mk hf hb =>
          rw [List.append_assoc, List.cons_append, List.cons_append, readItem,
            readLeaf_complete hf hb]
          rfl
      | @negation t u h =>
        have hu := hitem h (by simpa using hlen) rest
        rw [List.cons_append, readItem, hu]
        rfl
      | @group t u h =>
        have hu : u.length ≤ fuel := by
          simp only [List.length_append, List.length_cons] at hlen
          omega
        refine readItem_group ?_
        simpa using hitem h hu (')' :: rest)
      | @joined op ts us htwo h =>
        -- at least two items: the first by `hitem`, the separator from the second, the others by `htail`
        cases h with
        | nil => simp at htwo
        | @cons t u ts us ht hts =>
          rw [intercalate_cons] at hlen ⊢
          simp only [List.length_append, List.length_cons] at hlen
          cases hts with
          | nil => simp at htwo
          | @cons t' u' ts us ht' hts =>
            have hfirst := hitem ht (by omega) (tailText op (u' :: us) ++ ')' :: rest)
            have hothers := htail op (.cons ht' hts) (by omega) rest
            have hop : junction? (tailText op (u' :: us) ++ ')' :: rest) = some op := by
              simpa [tailText] using junction?_separator op ht' (tailText op us ++ ')' :: rest)
            have hjoined := readItem_joined hfirst hop hothers
            simpa using hjoined
    · intro op ts us h hlen rest
      cases h with
      | nil => simp [tailText, readTail]
      | @cons t u ts us ht hts =>
        have hsep : 1 ≤ op.separator.length := by cases op <;> decide
        have hsplit : tailText op (u :: us) = op.separator ++ (u ++ tailText op us) := by
          simp [tailText]
        rw [hsplit] at hlen ⊢
        simp only [List.length_append] at hlen
        have hfirst := hitem ht (by omega) (tailText op us ++ ')' :: rest)
        have hothers := htail op hts (by omega) rest
        rw [List.append_assoc, List.append_assoc]
        exact readTail_separator hfirst hothers

/-- **Nothing else is read.**  Again by induction on the fuel, for items and for their tails. -/
theorem readItem_sound (fuel : Nat) :
    (∀ {s rest : List Char} {t : QueryTree}, readItem fuel s = some (t, rest) →
      ∃ u, t.Derives u ∧ s = u ++ rest) ∧
    (∀ {op : Junction} {s rest : List Char} {ts : List QueryTree},
      readTail fuel op s = some (ts, rest) →
      ∃ us, List.Forall₂ QueryTree.Derives ts us ∧ s = tailText op us ++ ')' :: rest) := by
  induction fuel with
  | zero =>
    constructor
    · intro s rest t h
      simp [readItem] at h
    · intro op s rest ts h
      rcases readTail_cases h with ⟨rfl, rfl⟩ | ⟨n, _, _, _, _, hn, _⟩
      · exact ⟨[], .nil, rfl⟩
      · cases hn
  | succ fuel ih =>
    obtain ⟨hitem, htail⟩ := ih
    constructor
    · intro s rest t h
      obtain ⟨n, hn, hcases⟩ := readItem_cases h
      cases hn
      rcases hcases with ⟨s', t', rfl, hr, rfl⟩ | ⟨s', rfl, hr⟩
        | ⟨s', t', s'', op, ts, rfl, hr, hop, hrs, rfl⟩ | ⟨s', l, rfl, hr, rfl⟩
      · obtain ⟨u, hu, rfl⟩ := hitem hr
        exact ⟨_, .negation hu, rfl⟩
      · obtain ⟨u, hu, rfl⟩ := hitem hr
        exact ⟨_, .group hu, by simp⟩
      · obtain ⟨u, hu, rfl⟩ := hitem hr
        obtain ⟨us, hus, rfl⟩ := htail hrs
        have htwo : 2 ≤ (t' :: ts).length := by
          -- a separator came next, so there is a second item
          cases hus with
          | nil => cases hop
          | cons _ _ => simp
        refine ⟨_, .joined htwo (.cons hu hus), ?_⟩
        simp [intercalate_cons]
      · obtain ⟨u, hu, hs⟩ := readLeaf_sound hr
        exact ⟨u, .leaf hu, hs⟩
    · intro op s rest ts h
      rcases readTail_cases h with ⟨rfl, rfl⟩ | ⟨n, s', t, s'', ts', hn, rfl, hr, hrs, rfl⟩
      · exact ⟨[], .nil, rfl⟩
      · cases hn
        obtain ⟨u, hu, rfl⟩ := hitem hr
        obtain ⟨us, hus, rfl⟩ := htail hrs
        exact ⟨u :: us, .cons hu hus, by simp [tailText]⟩

/-- **`parseQuery` is the parser of the grammar.**  It returns a tree exactly if the whole text is
a text of that tree. -/
theorem parseQuery_eq_some_iff {text : String} {t : QueryTree} :
    parseQuery text = some t ↔ t.Derives text.toList := by
  unfold parseQuery
  constructor
  · intro h
    split at h
    · next t' hr =>
      cases h
      obtain ⟨u, hu, hs⟩ := (readItem_sound _).1 hr
      rw [List.append_nil] at hs
      rwa [hs]
    · cases h
  · intro h
    have hr := (readItem_complete text.toList.length).1 h (Nat.le_refl _) []
    rw [List.append_nil] at hr
    rw [hr]

end IndexQuery
