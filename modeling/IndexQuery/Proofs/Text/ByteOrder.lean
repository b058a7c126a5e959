/-
# The order of texts is the byte order of UTF-8

Names are compared by code points.  A code point is written in UTF-8 as a first byte and up to three bytes
of six bits each, and this writing keeps the order: a longer code begins with a greater byte, and codes of
one length are compared like their digits in base 64 (`utf8EncodeChar_append_lt`, which leaves open what
follows either code).  Hence two texts stand in the same order as their bytes (`lt_iff_utf8Bytes_lt`).
-/
import Mathlib.Data.String.Basic

namespace IndexQuery

/-- The bytes of a text in UTF-8. -/
def utf8Bytes (s : String) : List UInt8 :=
  s.toByteArray.data.toList

theorem utf8Bytes_eq_flatMap (s : String) :
    utf8Bytes s = s.toList.flatMap String.utf8EncodeChar := by
  rw [utf8Bytes, ← String.utf8Encode_toList, List.utf8Encode, List.data_toByteArray]

/-! ## 1. Codes of one length -/

/-- The byte of the last six bits of a number. -/
def sixBits (n : Nat) : UInt8 :=
  UInt8.ofNat (n % 64 + 128)

/-- A number as a first byte and as many bytes of six bits as asked for. -/
def sixBitCode (first : Nat → UInt8) : Nat → Nat → List UInt8
  | 0, n => [first n]
  | k + 1, n => sixBitCode first k (n / 64) ++ [sixBits n]

theorem exists_sixBitCode_eq_cons (first : Nat → UInt8) (k n : Nat) :
    ∃ rest, sixBitCode first k n = first ((· / 64)^[k] n) :: rest := by
  induction k generalizing n with
  | zero => exact ⟨[], rfl⟩
  | succ k ih =>
    obtain ⟨rest, hrest⟩ := ih (n / 64)
    exact ⟨rest ++ [sixBits n], by rw [sixBitCode, hrest]; rfl⟩

theorem sixBits_lt {n m : Nat} (h : n % 64 < m % 64) : sixBits n < sixBits m := by
  rw [UInt8.lt_iff_toNat_lt, sixBits, sixBits, UInt8.toNat_ofNat', UInt8.toNat_ofNat']
  omega

/-- **Codes of one length are in the order of their numbers**, if the first bytes are. -/
theorem sixBitCode_append_lt {first : Nat → UInt8} {room : Nat}
    (hfirst : ∀ a b, a < b → b < room → first a < first b) {k n m : Nat} (h : n < m)
    (hroom : (· / 64)^[k] m < room) (u v : List UInt8) :
    sixBitCode first k n ++ u < sixBitCode first k m ++ v := by
  induction k generalizing n m u v with
  | zero => exact List.cons_lt_cons_iff.mpr (.inl (hfirst n m h hroom))
  | succ k ih =>
    simp only [sixBitCode, List.append_assoc, List.singleton_append]
    rcases Nat.lt_or_eq_of_le (Nat.div_le_div_right h.le : n / 64 ≤ m / 64) with hlt | heq
    · exact ih hlt hroom _ _
    · have hlast : n % 64 < m % 64 := by omega
      rw [heq]
      exact List.append_left_lt (List.cons_lt_cons_iff.mpr (.inl (sixBits_lt hlast)))

/-! ## 2. Characters -/

/-- How many bytes follow the first one. -/
def following (n : Nat) : Nat :=
  if n ≤ 0x7F then 0 else if n ≤ 0x7FF then 1 else if n ≤ 0xFFFF then 2 else 3

/-- The mark in the first byte of a code, by the number of bytes that follow. -/
def firstMark : Nat → Nat
  | 0 => 0
  | 1 => 0xC0
  | 2 => 0xE0
  | _ => 0xF0

/-- The number of first bytes with one mark. -/
def firstRoom : Nat → Nat
  | 0 => 0x80
  | 1 => 0x20
  | 2 => 0x10
  | _ => 0x08

/-- The first byte of a code. -/
def firstByte (k x : Nat) : UInt8 :=
  UInt8.ofNat (firstMark k + x)

theorem following_le_of_lt {n m : Nat} (h : n < m) : following n ≤ following m := by
  unfold following
  split_ifs <;> omega

theorem following_le (n : Nat) : following n ≤ 3 := by
  unfold following
  split_ifs <;> omega

theorem codePoint_lt (c : Char) : c.toNat < 0x110000 := by
  rcases c.valid with h | ⟨-, h⟩
  · exact h.trans (by decide)
  · exact h

theorem iterate_div_following_lt (c : Char) :
    (· / 64)^[following c.toNat] c.toNat < firstRoom (following c.toNat) := by
  have hc := codePoint_lt c
  unfold following
  split_ifs <;> simp only [Function.iterate_succ_apply, Function.iterate_zero_apply, firstRoom] <;> omega

theorem utf8EncodeChar_eq_sixBitCode (c : Char) : String.utf8EncodeChar c
    = sixBitCode (firstByte (following c.toNat)) (following c.toNat) c.toNat := by
  have hc := codePoint_lt c
  have hval : c.val.toNat = c.toNat := rfl
  simp only [String.utf8EncodeChar, following, hval]
  split_ifs with h1 h2 h3
  · simp [sixBitCode, firstByte, firstMark]
  · have hfirst : c.toNat / 64 % 32 + 192 = 0xC0 + c.toNat / 64 := by omega
    rw [hfirst]
    rfl
  · have hfirst : c.toNat / 4096 % 16 + 224 = 0xE0 + c.toNat / 64 / 64 := by omega
    rw [hfirst]
    rfl
  · have hfirst : c.toNat / 262144 % 8 + 240 = 0xF0 + c.toNat / 64 / 64 / 64 := by omega
    have hsecond : c.toNat / 4096 = c.toNat / 64 / 64 := by omega
    rw [hfirst, hsecond]
    rfl

theorem firstByte_lt {k x y : Nat} (h : x < y) (hy : y < firstRoom k) :
    firstByte k x < firstByte k y := by
  have hfits : firstMark k + firstRoom k ≤ 0x100 := by
    unfold firstMark firstRoom
    split <;> decide
  rw [UInt8.lt_iff_toNat_lt, firstByte, firstByte, UInt8.toNat_ofNat', UInt8.toNat_ofNat']
  omega

/-- A longer code begins with a greater byte. -/
theorem firstByte_lt_of_lt {k l x y : Nat} (h : k < l) (hl : l ≤ 3) (hx : x < firstRoom k)
    (hy : y < firstRoom l) : firstByte k x < firstByte l y := by
  have hmarks : ∀ l ≤ 3, firstMark l + firstRoom l ≤ 0x100 ∧
      ∀ k < l, firstMark k + firstRoom k ≤ firstMark l := by decide
  obtain ⟨hfits, hbelow⟩ := hmarks l hl
  have hmark := hbelow k h
  rw [UInt8.lt_iff_toNat_lt, firstByte, firstByte, UInt8.toNat_ofNat', UInt8.toNat_ofNat']
  omega

/-- **The codes of two characters are in the order of the characters**, whatever follows them. -/
theorem utf8EncodeChar_append_lt {c d : Char} (h : c < d) (u v : List UInt8) :
    String.utf8EncodeChar c ++ u < String.utf8EncodeChar d ++ v := by
  have hlt : c.toNat < d.toNat := h
  rw [utf8EncodeChar_eq_sixBitCode c, utf8EncodeChar_eq_sixBitCode d]
  rcases Nat.lt_or_eq_of_le (following_le_of_lt hlt) with hlength | hlength
  · obtain ⟨s, hs⟩ := exists_sixBitCode_eq_cons (firstByte (following c.toNat)) _ c.toNat
    obtain ⟨t, ht⟩ := exists_sixBitCode_eq_cons (firstByte (following d.toNat)) _ d.toNat
    have hfirst := firstByte_lt_of_lt hlength (following_le d.toNat) (iterate_div_following_lt c)
      (iterate_div_following_lt d)
    rw [hs, ht]
    exact List.cons_lt_cons_iff.mpr (.inl hfirst)
  · rw [hlength]
    exact sixBitCode_append_lt (fun _ _ => firstByte_lt) hlt (iterate_div_following_lt d) u v

/-! ## 3. Texts -/

theorem flatMap_utf8EncodeChar_lt {s t : List Char} (h : s < t) :
    s.flatMap String.utf8EncodeChar < t.flatMap String.utf8EncodeChar := by
  induction s generalizing t with
  | nil =>
    cases t with
    | nil => cases h
    | cons d t =>
      obtain ⟨byte, rest, hd⟩ := List.exists_cons_of_ne_nil (String.utf8EncodeChar_ne_nil : _ ≠ [])
      rw [List.flatMap_nil, List.flatMap_cons, hd]
      exact List.nil_lt_cons byte _
  | cons c s ih =>
    cases t with
    | nil => cases h
    | cons d t =>
      rw [List.flatMap_cons, List.flatMap_cons]
      rcases List.cons_lt_cons_iff.mp h with hlt | ⟨rfl, hlt⟩
      · exact utf8EncodeChar_append_lt hlt _ _
      · exact List.append_left_lt (ih hlt)

/-- **Texts are in the order of their bytes.** -/
theorem lt_iff_utf8Bytes_lt (a b : String) : a < b ↔ utf8Bytes a < utf8Bytes b := by
  have hmono : ∀ {a b : String}, a < b → utf8Bytes a < utf8Bytes b := by
    intro a b h
    rw [utf8Bytes_eq_flatMap, utf8Bytes_eq_flatMap]
    exact flatMap_utf8EncodeChar_lt (String.lt_iff_toList_lt.mp h)
  refine ⟨hmono, fun h => ?_⟩
  rcases lt_trichotomy a b with hlt | rfl | hgt
  · exact hlt
  · exact absurd h (List.lt_irrefl _)
  · exact absurd h (List.lt_asymm (hmono hgt))

theorem le_iff_utf8Bytes_le (a b : String) : a ≤ b ↔ utf8Bytes a ≤ utf8Bytes b := by
  rw [← String.not_lt, ← List.not_lt, lt_iff_utf8Bytes_lt]

end IndexQuery
