/-
# What is written as JSON is read back

The reader takes a text to a document and works from left to right.  So a text stands for a document if it
is read as that document whatever stands behind it, and this is a property that texts inherit from their
parts (`Document.ReadsAs`): a string has it if each character is written in one of the ways the grammar has
for it (`CharText`), and an array or an object has it if its items or members have.

The printer of JSON values and the lines of the log write their strings differently, but both in such ways.
Here the printer's half is finished (`Json.parse?_text`): the text of a value is read back as that value.
Numbers are left out, since reading a decimal rounds.
-/
import IndexQuery.Json.Printer
import IndexQuery.Json.Reader
import Mathlib.Data.List.Forall2

namespace IndexQuery

namespace Document

/-! ## 1. Strings -/

/-- **The ways to write a character in a string**: as it is, by an escape of its own, or by its code point
in four hexadecimal digits. -/
inductive CharText : Char → List Char → Prop
  | plain {c : Char} : 0x20 ≤ c.toNat → c ≠ '"' → c ≠ '\\' → CharText c [c]
  | escape {c e : Char} : simpleEscape? e = some c → CharText c ['\\', e]
  | code {c h₁ h₂ h₃ h₄ : Char} :
      hex4? h₁ h₂ h₃ h₄ = some c.toNat → CharText c ['\\', 'u', h₁, h₂, h₃, h₄]

/-- One branch of an encoder: a character with an escape of its own, or what is written otherwise. -/
theorem charText_ite {c x e : Char} {t : List Char} (he : simpleEscape? e = some x)
    (ht : c ≠ x → CharText c t) : CharText c (if c == x then ['\\', e] else t) := by
  split_ifs with h
  · obtain rfl := eq_of_beq h
    exact .escape he
  · exact ht (by simpa using h)

theorem pieces?_plain {c : Char} (hc : 0x20 ≤ c.toNat) (hquote : c ≠ '"') (hslash : c ≠ '\\')
    (rest : List Char) :
    pieces? (c :: rest) = (pieces? rest).map fun r => (.char c :: r.1, r.2) := by
  rw [pieces?.eq_def]
  split
  · next h => cases h
  · next h => cases h; exact absurd rfl hquote
  · next h => cases h; exact absurd rfl hslash
  · next h => cases h; exact absurd rfl hslash
  · next h =>
    cases h
    rw [if_neg (by omega)]

theorem pieces?_escape {c e : Char} (h : simpleEscape? e = some c) (rest : List Char) :
    pieces? ('\\' :: e :: rest) = (pieces? rest).map fun r => (.char c :: r.1, r.2) := by
  have hcode : e ≠ 'u' := by
    rintro rfl
    cases h
  rw [pieces?.eq_def]
  split
  · next h => cases h
  · next h => cases h
  · next h => cases h; exact absurd rfl hcode
  · next h' => cases h'; rw [h]
  · next hnone h' => cases h'; exact absurd rfl (hnone e rest rfl)

/-- No code point is half of a surrogate pair. -/
theorem not_surrogate (c : Char) :
    isHighSurrogate c.toNat = false ∧ isLowSurrogate c.toNat = false := by
  simp only [isHighSurrogate, isLowSurrogate, Bool.and_eq_false_iff, decide_eq_false_iff_not]
  rcases c.valid with h | ⟨h, -⟩
  · change c.toNat < 0xD800 at h
    omega
  · change 0xDFFF < c.toNat at h
    omega

/-- A character that is written in one of these ways is one piece of the string. -/
theorem CharText.exists_pieces? {c : Char} {t : List Char} (h : CharText c t) {rest tail : List Char}
    {ps : List Piece} {cs : List Char} (hrest : pieces? rest = some (ps, tail))
    (hps : joinPieces? ps = some cs) :
    ∃ ps', pieces? (t ++ rest) = some (ps', tail) ∧ joinPieces? ps' = some (c :: cs) := by
  cases h with
  | plain hc hquote hslash =>
    refine ⟨.char c :: ps, ?_, by simp [joinPieces?, hps]⟩
    rw [List.singleton_append, pieces?_plain hc hquote hslash, hrest]
    rfl
  | @escape e he =>
    refine ⟨.char c :: ps, ?_, by simp [joinPieces?, hps]⟩
    rw [List.cons_append, List.singleton_append, pieces?_escape he, hrest]
    rfl
  | @code h₁ h₂ h₃ h₄ hcode =>
    refine ⟨.unit c.toNat :: ps, ?_, ?_⟩
    · simp [pieces?, hcode, hrest]
    · obtain ⟨hhigh, hlow⟩ := not_surrogate c
      unfold joinPieces?
      simp [hhigh, hlow, hps]

/-- A text that is read as a string, whatever stands behind it. -/
def ReadsAsString (t : List Char) (s : String) : Prop :=
  ∃ u, t = '"' :: u ∧ ∀ rest, string? (u ++ rest) = some (some s, rest)

/-- **A string is read character by character up to its closing quote.** -/
theorem readsAsString_quoted {spell : Char → List Char} (hspell : ∀ c, CharText c (spell c))
    (s : String) : ReadsAsString ('"' :: s.toList.flatMap spell ++ ['"']) s := by
  refine ⟨s.toList.flatMap spell ++ ['"'], rfl, fun rest => ?_⟩
  have hpieces : ∀ cs : List Char, ∃ ps,
      pieces? (cs.flatMap spell ++ '"' :: rest) = some (ps, rest) ∧ joinPieces? ps = some cs := by
    intro cs
    induction cs with
    | nil => exact ⟨[], rfl, rfl⟩
    | cons c cs ih =>
      obtain ⟨ps, hrest, hps⟩ := ih
      rw [List.flatMap_cons, List.append_assoc]
      exact (hspell c).exists_pieces? hrest hps
  obtain ⟨ps, hps, hjoin⟩ := hpieces s.toList
  rw [List.append_assoc, List.singleton_append, string?, hps]
  simp [hjoin]

/-! ## 2. Values -/

/-- **A text that is read as a document, whatever stands behind it.**  It begins with neither a blank nor
the bracket that would end an array, and twice its length bounds the recursion of the reader. -/
structure ReadsAs (t : List Char) (d : Document) : Prop where
  head : ∃ c u, t = c :: u ∧ isSpace c = false ∧ c ≠ ']'
  reads : ∀ fuel rest, 2 * t.length ≤ fuel → valueAt? fuel (t ++ rest) = some (d, rest)

theorem skipSpace_cons {c : Char} (h : isSpace c = false) (rest : List Char) :
    skipSpace (c :: rest) = c :: rest := by
  simp [skipSpace, h]

/-- What is not empty leaves some fuel. -/
theorem exists_fuel {t : List Char} {fuel : Nat} (ht : t ≠ []) (hfuel : 2 * t.length ≤ fuel) :
    ∃ n, fuel = n + 1 := by
  have hpos := List.length_pos_iff.mpr ht
  exact ⟨fuel - 1, by omega⟩

/-- The values that are written as words. -/
def words : List (List Char × Document) :=
  [(['n', 'u', 'l', 'l'], .null), (['t', 'r', 'u', 'e'], .bool true),
    (['f', 'a', 'l', 's', 'e'], .bool false)]

theorem readsAs_word {t : List Char} {d : Document} (h : (t, d) ∈ words) : ReadsAs t d := by
  simp only [words, List.mem_cons, Prod.mk.injEq, List.not_mem_nil, or_false] at h
  rcases h with ⟨rfl, rfl⟩ | ⟨rfl, rfl⟩ | ⟨rfl, rfl⟩
  all_goals
    refine ⟨⟨_, _, rfl, rfl, by decide⟩, fun fuel rest hfuel => ?_⟩
    obtain ⟨n, rfl⟩ := exists_fuel (by simp) hfuel
    simp [valueAt?, skipSpace, isSpace, expect?]

theorem ReadsAsString.readsAs {t : List Char} {s : String} (h : ReadsAsString t s) :
    ReadsAs t (.str (some s)) := by
  obtain ⟨u, rfl, hu⟩ := h
  refine ⟨⟨'"', u, rfl, rfl, by decide⟩, fun fuel rest hfuel => ?_⟩
  obtain ⟨n, rfl⟩ := exists_fuel (by simp) hfuel
  simp [valueAt?, skipSpace, isSpace, hu]

/-! ## 3. Arrays and objects -/

theorem itemsAt?_intercalate {ts : List (List Char)} {ds : List Document}
    (h : List.Forall₂ ReadsAs ts ds) (hne : ts ≠ []) {fuel : Nat} (rest : List Char)
    (hfuel : 2 * ([','].intercalate ts).length < fuel) :
    itemsAt? fuel ([','].intercalate ts ++ ']' :: rest) = some (ds, rest) := by
  induction h generalizing fuel with
  | nil => exact absurd rfl hne
  | @cons t d ts ds ht hts ih =>
    obtain ⟨n, rfl⟩ : ∃ n, fuel = n + 1 := ⟨fuel - 1, by omega⟩
    cases hts with
    | nil =>
      have hread := ht.reads n (']' :: rest) (by simpa [Nat.lt_succ_iff] using hfuel)
      simp [itemsAt?, hread, skipSpace, isSpace]
    | @cons t' d' ts ds ht' hts =>
      rw [List.intercalate_cons_cons] at hfuel ⊢
      simp only [List.length_append, List.length_singleton] at hfuel
      have hread := ht.reads n (',' :: ([','].intercalate (t' :: ts) ++ ']' :: rest)) (by omega)
      have hrest := @ih (by simp) n (by omega)
      simp [itemsAt?, hread, skipSpace, isSpace, hrest]

/-- A text that is read as a member of an object: a name, a colon, a value. -/
def ReadsAsMember (t : List Char) (m : Option String × Document) : Prop :=
  ∃ key u v, m.1 = some key ∧ t = u ++ ':' :: v ∧ ReadsAsString u key ∧ ReadsAs v m.2

theorem membersAt?_intercalate {ts : List (List Char)} {ms : List (Option String × Document)}
    (h : List.Forall₂ ReadsAsMember ts ms) (hne : ts ≠ []) {fuel : Nat} (rest : List Char)
    (hfuel : 2 * ([','].intercalate ts).length < fuel) :
    membersAt? fuel ([','].intercalate ts ++ '\x7d' :: rest) = some (ms, rest) := by
  induction h generalizing fuel with
  | nil => exact absurd rfl hne
  | @cons t m ts ms ht hts ih =>
    obtain ⟨n, rfl⟩ : ∃ n, fuel = n + 1 := ⟨fuel - 1, by omega⟩
    obtain ⟨_, d⟩ := m
    obtain ⟨key, _, v, rfl, rfl, ⟨u, rfl, hkey⟩, hvalue⟩ := ht
    cases hts with
    | nil =>
      have hread := hvalue.reads n ('\x7d' :: rest) (by simp at hfuel; omega)
      simp [membersAt?, skipSpace, isSpace, hkey, hread]
    | @cons t' m' ts ms ht' hts =>
      rw [List.intercalate_cons_cons] at hfuel ⊢
      simp only [List.length_append, List.length_cons] at hfuel
      have hread := hvalue.reads n (',' :: ([','].intercalate (t' :: ts) ++ '\x7d' :: rest)) (by omega)
      have hrest := @ih (by simp) n (by omega)
      simp [membersAt?, skipSpace, isSpace, hkey, hread, hrest]

theorem valueAt?_array {n : Nat} {c : Char} {u rest : List Char} {ds : List Document}
    (hc : isSpace c = false) (hne : c ≠ ']') (h : itemsAt? n (c :: u) = some (ds, rest)) :
    valueAt? (n + 1) ('[' :: c :: u) = some (.arr ds, rest) := by
  rw [valueAt?, skipSpace_cons rfl]
  simp only [skipSpace_cons hc]
  split
  · next heq => cases heq; exact absurd rfl hne
  · rw [h]
    rfl

theorem valueAt?_object {n : Nat} {u rest : List Char} {ms : List (Option String × Document)}
    (h : membersAt? n ('"' :: u) = some (ms, rest)) :
    valueAt? (n + 1) ('\x7b' :: '"' :: u) = some (.obj ms, rest) := by
  rw [valueAt?, skipSpace_cons rfl]
  simp only [skipSpace_cons (rfl : isSpace '"' = false)]
  change (membersAt? n ('"' :: u)).map _ = _
  rw [h]
  rfl

/-- Parts with separators between them begin like the first part. -/
theorem exists_intercalate_eq_cons (sep : List Char) (c : Char) (u : List Char)
    (ts : List (List Char)) : ∃ v, sep.intercalate ((c :: u) :: ts) = c :: v := by
  cases ts with
  | nil => exact ⟨u, List.intercalate_singleton⟩
  | cons t ts => exact ⟨_, by rw [List.intercalate_cons_cons]; rfl⟩

/-- **An array is read item by item.** -/
theorem ReadsAs.array {ts : List (List Char)} {ds : List Document} (h : List.Forall₂ ReadsAs ts ds) :
    ReadsAs ('[' :: [','].intercalate ts ++ [']']) (.arr ds) := by
  refine ⟨⟨'[', _, rfl, rfl, by decide⟩, fun fuel rest hfuel => ?_⟩
  obtain ⟨n, rfl⟩ := exists_fuel (by simp) hfuel
  cases h with
  | nil => simp [valueAt?, skipSpace, isSpace]
  | @cons t d ts ds ht hts =>
    have hlength : 2 * ([','].intercalate (t :: ts)).length < n := by
      simp only [List.length_append, List.length_cons] at hfuel
      omega
    have hitems := itemsAt?_intercalate (.cons ht hts) (List.cons_ne_nil t ts) rest hlength
    obtain ⟨c, u, rfl, hc, hne⟩ := ht.head
    obtain ⟨v, hv⟩ := exists_intercalate_eq_cons [','] c u ts
    rw [hv] at hitems ⊢
    rw [List.append_assoc]
    exact valueAt?_array hc hne hitems

/-- **An object is read member by member.** -/
theorem ReadsAs.object {ts : List (List Char)} {ms : List (Option String × Document)}
    (h : List.Forall₂ ReadsAsMember ts ms) :
    ReadsAs ('\x7b' :: [','].intercalate ts ++ ['\x7d']) (.obj ms) := by
  refine ⟨⟨'\x7b', _, rfl, rfl, by decide⟩, fun fuel rest hfuel => ?_⟩
  obtain ⟨n, rfl⟩ := exists_fuel (by simp) hfuel
  cases h with
  | nil => simp [valueAt?, skipSpace, isSpace]
  | @cons t m ts ms ht hts =>
    have hlength : 2 * ([','].intercalate (t :: ts)).length < n := by
      simp only [List.length_append, List.length_cons] at hfuel
      omega
    have hmembers := membersAt?_intercalate (.cons ht hts) (List.cons_ne_nil t ts) rest hlength
    obtain ⟨key, _, w, -, rfl, ⟨u, rfl, -⟩, -⟩ := ht
    obtain ⟨v, hv⟩ : ∃ v, [','].intercalate (('"' :: u ++ ':' :: w) :: ts) = '"' :: v :=
      exists_intercalate_eq_cons [','] '"' (u ++ ':' :: w) ts
    rw [hv] at hmembers ⊢
    rw [List.append_assoc]
    exact valueAt?_object hmembers

/-- A text that is read as a document is a text of that document. -/
theorem ReadsAs.parse? {t : String} {d : Document} (h : ReadsAs t.toList d) :
    Document.parse? t = some d := by
  have hread := h.reads (2 * t.toList.length + 2) [] (by omega)
  rw [List.append_nil] at hread
  simp [Document.parse?, hread, skipSpace]

end Document

/-! ## 4. The text of a value -/

/-- The value of a hexadecimal digit that is written. -/
theorem hex?_hexDigit {n : Nat} (h : n < 16) : Document.hex? (hexDigit n) = some n := by
  have hall : ∀ n < 16, Document.hex? (hexDigit n) = some n := by decide
  exact hall n h

/-- A character below U+0100 may be written by its code point. -/
theorem charText_controlEscape {c : Char} (h : c.toNat < 0x100) :
    Document.CharText c (controlEscape c) := by
  refine .code ?_
  have hzero : Document.hex? '0' = some 0 := rfl
  have hvalue : ((0 * 16 + 0) * 16 + c.toNat / 16) * 16 + c.toNat % 16 = c.toNat := by omega
  rw [Document.hex4?, hzero, hex?_hexDigit (by omega), hex?_hexDigit (by omega)]
  exact congrArg some hvalue

namespace Json

theorem charText_escapeChar (c : Char) : Document.CharText c (escapeChar c) := by
  unfold escapeChar
  refine Document.charText_ite rfl fun hquote => Document.charText_ite rfl fun hslash =>
    Document.charText_ite rfl fun _ => Document.charText_ite rfl fun _ =>
    Document.charText_ite rfl fun _ => Document.charText_ite rfl fun _ =>
    Document.charText_ite rfl fun _ => ?_
  split_ifs with hcontrol
  · exact charText_controlEscape (by omega)
  · exact .plain (by omega) hquote hslash

theorem readsAsString_quote (s : String) : Document.ReadsAsString (quote s).toList s := by
  rw [quote, String.toList_ofList]
  exact Document.readsAsString_quoted charText_escapeChar s

mutual

/-- A value without numbers. -/
def isNumberFree : Json → Bool
  | .num _ => false
  | .arr items => areNumberFree items
  | .obj members => membersAreNumberFree members
  | _ => true
termination_by structural j => j

/-- Items without numbers. -/
def areNumberFree : List Json → Bool
  | [] => true
  | item :: rest => item.isNumberFree && areNumberFree rest
termination_by structural items => items

/-- Members without numbers. -/
def membersAreNumberFree : List (String × Json) → Bool
  | [] => true
  | (_, value) :: rest => value.isNumberFree && membersAreNumberFree rest
termination_by structural members => members

end

theorem areNumberFree_eq_all (items : List Json) : areNumberFree items = items.all isNumberFree := by
  induction items with
  | nil => rfl
  | cons item items ih => rw [areNumberFree, ih, List.all_cons]

theorem membersAreNumberFree_eq_all (members : List (String × Json)) :
    membersAreNumberFree members = members.all (·.2.isNumberFree) := by
  induction members with
  | nil => rfl
  | cons m members ih => rw [membersAreNumberFree, ih, List.all_cons]

open Document in
mutual

/-- The text of a value is read as the value. -/
theorem readsAs_text : (j : Json) → j.isNumberFree = true → ReadsAs j.text.toList (ofJson j)
  | .null, _ => readsAs_word (by simp [words, text, ofJson])
  | .bool true, _ => readsAs_word (by simp [words, text, ofJson])
  | .bool false, _ => readsAs_word (by simp [words, text, ofJson])
  | .str s, _ => (readsAsString_quote s).readsAs
  | .arr items, h => by
    have hitems := ReadsAs.array (readsAs_itemTexts items h)
    rw [text, ofJson]
    simpa using hitems
  | .obj members, h => by
    have hmembers := ReadsAs.object (readsAs_memberTexts members h)
    rw [text, ofJson]
    simpa using hmembers

theorem readsAs_itemTexts : (items : List Json) → areNumberFree items = true →
    List.Forall₂ ReadsAs ((itemTexts items).map String.toList) (ofItems items)
  | [], _ => .nil
  | item :: rest, h => by
    obtain ⟨hitem, hrest⟩ := Bool.and_eq_true_iff.mp h
    exact .cons (readsAs_text item hitem) (readsAs_itemTexts rest hrest)

theorem readsAs_memberTexts : (members : List (String × Json)) → membersAreNumberFree members = true →
    List.Forall₂ ReadsAsMember ((memberTexts members).map String.toList) (Document.ofMembers members)
  | [], _ => .nil
  | (key, value) :: rest, h => by
    obtain ⟨hvalue, hrest⟩ := Bool.and_eq_true_iff.mp h
    refine .cons ⟨key, (quote key).toList, value.text.toList, rfl, by simp, readsAsString_quote key, ?_⟩
      (readsAs_memberTexts rest hrest)
    exact readsAs_text value hvalue

end

/-- **The text of a value without numbers is read back as the value.** -/
theorem parse?_text {j : Json} (h : j.isNumberFree = true) :
    Document.parse? j.text = some (Document.ofJson j) :=
  (readsAs_text j h).parse?

end Json

end IndexQuery
