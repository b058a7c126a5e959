/-
# What a number looks like

Whatever its kind and its layout, a number is written with digits, a point, signs and the mark of
an exponent, and with at least one character.  So the text of a number holds none of the delimiters
of the languages that it is put into.
-/
import IndexQuery.Number.Basic

namespace IndexQuery

/-- A character that a number may be written with. -/
def isNumeralChar (c : Char) : Bool :=
  c.isDigit || c == '.' || c == '-' || c == '+' || c == 'e'

/-- A text that could be a number: not empty, and of the characters of numbers only. -/
def IsNumeral (cs : List Char) : Prop :=
  cs ≠ [] ∧ ∀ c ∈ cs, isNumeralChar c = true

theorem isNumeralChar_of_isDigit {c : Char} (h : c.isDigit = true) : isNumeralChar c = true := by
  simp [isNumeralChar, h]

theorem isDigit_of_mem_toDigits {n : Nat} {c : Char} (h : c ∈ Nat.toDigits 10 n) :
    c.isDigit = true :=
  Nat.isDigit_of_mem_toDigits (by decide) (by decide) h

theorem isNumeral_repr (n : Nat) : IsNumeral (Nat.repr n).toList := by
  rw [Nat.toList_repr]
  exact ⟨Nat.toDigits_ne_nil, fun c hc => isNumeralChar_of_isDigit (isDigit_of_mem_toDigits hc)⟩

/-! ## 1. Positional and scientific layout

A layout puts a point among the digits of a decimal and fills up with zeros where the digits end; the
scientific one adds an exponent with its sign.  Nothing else is written. -/

namespace Decimal

theorem chars_ne_nil (d : Decimal) : d.chars ≠ [] :=
  Nat.toDigits_ne_nil

theorem isDigit_of_mem_chars {d : Decimal} {c : Char} (h : c ∈ d.chars) : c.isDigit = true :=
  isDigit_of_mem_toDigits h

theorem isDigit_of_mem_replicate {n : Nat} {c : Char} (h : c ∈ List.replicate n '0') :
    c.isDigit = true := by
  obtain ⟨-, rfl⟩ := List.mem_replicate.mp h
  decide

/-- Both parts of a positional number are digits. -/
theorem isDigit_of_mem_positional {d : Decimal} {c : Char}
    (h : c ∈ d.positional.1 ∨ c ∈ d.positional.2) : c.isDigit = true := by
  unfold positional at h
  simp only at h
  -- the point stands behind all digits, among them, or before them
  split at h
  · rcases h with h | h
    · rcases List.mem_append.mp h with h | h
      · exact isDigit_of_mem_chars h
      · exact isDigit_of_mem_replicate h
    · cases h
  · split at h
    · rcases h with h | h
      · exact isDigit_of_mem_chars (List.mem_of_mem_take h)
      · exact isDigit_of_mem_chars (List.mem_of_mem_drop h)
    · rcases h with h | h
      · rw [List.mem_singleton.mp h]
        decide
      · rcases List.mem_append.mp h with h | h
        · exact isDigit_of_mem_replicate h
        · exact isDigit_of_mem_chars h

theorem positional_fst_ne_nil (d : Decimal) : d.positional.1 ≠ [] := by
  have hchars := d.chars_ne_nil
  unfold positional
  simp only
  split
  · simp [hchars]
  · split
    · next hplaces =>
      rw [Ne, List.take_eq_nil_iff]
      rintro (hzero | hnil)
      · omega
      · exact hchars hnil
    · simp

theorem isNumeralChar_of_mem_scientific {d : Decimal} {c : Char} (h : c ∈ d.scientific) :
    isNumeralChar c = true := by
  unfold scientific at h
  simp only [List.mem_append, List.mem_cons] at h
  rcases h with (h | h) | rfl | h | h
  · exact isNumeralChar_of_isDigit (isDigit_of_mem_chars (List.mem_of_mem_take h))
  · split at h
    · cases h
    · rcases List.mem_cons.mp h with rfl | h
      · decide
      · exact isNumeralChar_of_isDigit (isDigit_of_mem_chars (List.mem_of_mem_drop h))
  · decide
  · split at h
    · rw [h]
      decide
    · rw [h]
      decide
  · exact isNumeralChar_of_isDigit (isDigit_of_mem_toDigits h)

end Decimal

/-! ## 2. Numbers

A binary64 number is written in two ways: in JSON, where it always has a point or an exponent, and plainly,
where a whole number has neither.  The sign stands in front of either. -/

theorem isNumeral_signed (x : Binary64) {body : List Char} (h : IsNumeral body) :
    IsNumeral (x.signed body).toList := by
  unfold Binary64.signed
  rw [String.toList_ofList]
  split
  · refine ⟨by simp, fun c hc => ?_⟩
    rcases List.mem_cons.mp hc with rfl | hc
    · decide
    · exact h.2 c hc
  · exact h

theorem isNumeral_jsonText (x : Binary64) : IsNumeral x.jsonText.toList := by
  unfold Binary64.jsonText
  simp only
  split
  · refine isNumeral_signed x ⟨by simp, fun c hc => ?_⟩
    rcases List.mem_append.mp hc with hc | hc
    · exact isNumeralChar_of_isDigit (Decimal.isDigit_of_mem_positional (.inl hc))
    · rcases List.mem_cons.mp hc with rfl | hc
      · decide
      · split at hc
        · rw [List.mem_singleton.mp hc]
          decide
        · exact isNumeralChar_of_isDigit (Decimal.isDigit_of_mem_positional (.inr hc))
  · refine isNumeral_signed x ⟨?_, fun c hc => Decimal.isNumeralChar_of_mem_scientific hc⟩
    simp [Decimal.scientific]

theorem isNumeral_plainText (x : Binary64) : IsNumeral x.plainText.toList := by
  unfold Binary64.plainText
  simp only
  refine isNumeral_signed x ?_
  split
  · refine ⟨Decimal.positional_fst_ne_nil _, fun c hc => ?_⟩
    exact isNumeralChar_of_isDigit (Decimal.isDigit_of_mem_positional (.inl hc))
  · refine ⟨by simp, fun c hc => ?_⟩
    rcases List.mem_append.mp hc with hc | hc
    · exact isNumeralChar_of_isDigit (Decimal.isDigit_of_mem_positional (.inl hc))
    · rcases List.mem_cons.mp hc with rfl | hc
      · decide
      · exact isNumeralChar_of_isDigit (Decimal.isDigit_of_mem_positional (.inr hc))

/-- **Every number is a numeral.** -/
theorem Number.isNumeral_text (n : Number) : IsNumeral n.text.toList := by
  cases n with
  | whole n => exact isNumeral_repr n.toNat
  | negSucc k =>
    obtain ⟨-, hchars⟩ := isNumeral_repr (k.val + 1)
    refine ⟨by simp [text], fun c hc => ?_⟩
    have hsign : c ∈ '-' :: (Nat.repr (k.val + 1)).toList := by
      simpa [text] using hc
    rcases List.mem_cons.mp hsign with rfl | hc
    · decide
    · exact hchars c hc
  | float x => exact isNumeral_jsonText x

end IndexQuery
