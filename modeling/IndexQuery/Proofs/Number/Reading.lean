/-
# The text of a number determines the number

A numeral stands for a number, rounded once (`Numeral.exactly?`): for a natural number if it has digits
only, and for the nearest binary64 number if it has a point or an exponent.  The text of every number is
a numeral for it, behind a minus sign if the number is negative (`Number.exists_text`), so the number can
be read back from it (`signedNumberOf?_text`).

The digits of a text are read by the reader of JSON numerals.  All three layouts are `numeralText`, so the
reader is followed once (`unsigned?_numeralText`), and what is left of each layout is arithmetic: where the
point stands, and how many digits are behind it.
-/
import IndexQuery.Json.Reader
import IndexQuery.Proofs.Number.Rounding
import IndexQuery.Proofs.Number.Text
import Mathlib.Data.List.Basic

namespace IndexQuery

/-! ## 1. What a numeral stands for

The value of a numeral as it is read on paper: all of its digits and its exponent, rounded once. -/

namespace Numeral

/-- The power of ten that the exponent asks for. -/
def power (x : Numeral) : Int :=
  match x.exponent with
  | none => 0
  | some (false, digits) => digitsValue digits
  | some (true, digits) => -digitsValue digits

/-- The decimal that the digits, the point and the exponent write. -/
def decimal (x : Numeral) : Decimal :=
  ⟨digitsValue (x.whole ++ x.fraction.getD []), x.power - (x.fraction.getD []).length⟩

/-- **The number that a numeral stands for**, rounded once. -/
def exactly? (x : Numeral) : Option Number :=
  if x.fraction.isNone && x.exponent.isNone then
    if digitsValue x.whole < UInt64.size then some (.whole (UInt64.ofNat (digitsValue x.whole)))
    else none
  else (x.decimal.toBinary64? x.negative).map .float

end Numeral

/-- The number of a text that is one numeral without a sign. -/
def numberOf? (u : List Char) : Option Number :=
  match Document.unsigned? false u with
  | some (x, []) => x.exactly?
  | _ => none

/-! ## 2. Reading digits

The reader takes as many digits as there are, so a row of digits is read whole if no digit stands behind
it. -/

/-- The digits of a text by their values. -/
def digitValues (u : List Char) : List Nat :=
  u.map fun c => c.toNat - '0'.toNat

/-- A text of digits, at least one. -/
def IsDigits (u : List Char) : Prop :=
  u ≠ [] ∧ ∀ c ∈ u, c.isDigit = true

theorem digitsValue_digitValues (u : List Char) :
    digitsValue (digitValues u) = Nat.ofDigitChars 10 u 0 := by
  rw [digitsValue, digitValues, List.foldl_map, Nat.ofDigitChars_eq_foldl]

theorem isDigits_toDigits (n : Nat) : IsDigits (Nat.toDigits 10 n) :=
  ⟨Nat.toDigits_ne_nil, fun _ hc => isDigit_of_mem_toDigits hc⟩

theorem ofDigitChars_replicate_zero (k n : Nat) :
    Nat.ofDigitChars 10 (List.replicate k '0') n = n * Nat.pow 10 k := by
  induction k generalizing n with
  | zero => exact (Nat.mul_one n).symm
  | succ k ih =>
    have hstep : 10 * n + ('0'.toNat - '0'.toNat) = n * 10 := by omega
    rw [List.replicate_succ, Nat.ofDigitChars_cons, hstep, ih]
    simp only [Nat.pow_eq, Nat.pow_succ]
    ring

theorem digit?_of_isDigit {c : Char} (h : c.isDigit = true) :
    Document.digit? c = some (c.toNat - '0'.toNat) := by
  have hrange : '0' ≤ c ∧ c ≤ '9' := by simpa [Char.isDigit, Char.le_def] using h
  rw [Document.digit?, if_pos hrange]

theorem digit?_of_not_isDigit {c : Char} (h : c.isDigit = false) : Document.digit? c = none := by
  have hrange : ¬ ('0' ≤ c ∧ c ≤ '9') := by simpa [Char.isDigit, Char.le_def] using h
  rw [Document.digit?, if_neg hrange]

/-- A text that no digit begins. -/
def NoDigit (rest : List Char) : Prop :=
  ∀ c ∈ rest.head?, c.isDigit = false

theorem digits_append {u rest : List Char} (hu : ∀ c ∈ u, c.isDigit = true) (hrest : NoDigit rest) :
    Document.digits (u ++ rest) = (digitValues u, rest) := by
  induction u with
  | nil =>
    cases rest with
    | nil => rfl
    | cons c rest => simp [Document.digits, digit?_of_not_isDigit (hrest c rfl), digitValues]
  | cons c u ih =>
    have hrec := ih fun d hd => hu d (List.mem_cons_of_mem c hd)
    simp [Document.digits, digit?_of_isDigit (hu c List.mem_cons_self), hrec, digitValues]

theorem digits1?_append {u rest : List Char} (hu : IsDigits u) (hrest : NoDigit rest) :
    Document.digits1? (u ++ rest) = some (digitValues u, rest) := by
  rw [Document.digits1?, digits_append hu.2 hrest]
  obtain ⟨c, w, rfl⟩ := List.exists_cons_of_ne_nil hu.1
  rfl

/-! ## 3. Reading a numeral

The three parts of a numeral begin with characters of their own, a digit, a point and the mark of the
exponent, so each ends where the next begins. -/

/-- The point and the digits behind it, if there are any. -/
def fractionText : Option (List Char) → List Char
  | none => []
  | some digits => '.' :: digits

/-- The exponent with its sign, if there is one. -/
def exponentText : Option (Bool × List Char) → List Char
  | none => []
  | some (negative, digits) => 'e' :: (if negative then '-' else '+') :: digits

/-- A numeral without a sign, from its digits before the point, behind it and in the exponent. -/
def numeralText (whole : List Char) (fraction : Option (List Char))
    (exponent : Option (Bool × List Char)) : List Char :=
  whole ++ (fractionText fraction ++ exponentText exponent)

/-- Digits before the point: a zero stands there alone or not first. -/
def IsWholePart (u : List Char) : Prop :=
  IsDigits u ∧ (u.head? = some '0' → u.length = 1)

theorem eq_zero_of_value_eq_zero {c : Char} (h : c.isDigit = true)
    (hvalue : c.toNat - '0'.toNat = 0) : c = '0' := by
  have hlower : '0'.toNat ≤ c.toNat := by
    have hrange : '0' ≤ c ∧ c ≤ '9' := by simpa [Char.isDigit, Char.le_def] using h
    exact hrange.1
  exact Char.toNat_inj.mp (by omega)

theorem wholePart?_append {u rest : List Char} (hu : IsWholePart u) (hrest : NoDigit rest) :
    Document.wholePart? (u ++ rest) = some (digitValues u, rest) := by
  obtain ⟨⟨hne, hdigits⟩, hzero⟩ := hu
  rw [Document.wholePart?, digits_append hdigits hrest]
  split
  · next heq =>
    have hnil : digitValues u = [] := (Prod.mk.inj heq).1
    exact absurd (List.map_eq_nil_iff.mp hnil) hne
  · next heq =>
    -- a zero with more digits behind it
    obtain ⟨c, w, rfl⟩ := List.exists_cons_of_ne_nil hne
    obtain ⟨hvalue, hrest⟩ := List.cons.inj (Prod.mk.inj heq).1
    have hc := eq_zero_of_value_eq_zero (hdigits c List.mem_cons_self) hvalue
    have hlength := hzero (by rw [hc]; rfl)
    rw [List.length_eq_zero_iff.mp (Nat.succ.inj hlength)] at hrest
    cases hrest
  · rfl

theorem fractionPart?_append {fraction : Option (List Char)} {rest : List Char}
    (hfraction : ∀ u ∈ fraction, IsDigits u) (hrest : NoDigit rest) (hpoint : rest.head? ≠ some '.') :
    Document.fractionPart? (fractionText fraction ++ rest)
      = some (fraction.map digitValues, rest) := by
  cases fraction with
  | none =>
    rw [fractionText, List.nil_append, Document.fractionPart?]
    · rfl
    · rintro rest rfl
      exact hpoint rfl
  | some u =>
    rw [fractionText, List.cons_append, Document.fractionPart?,
      digits1?_append (hfraction u rfl) hrest]
    rfl

theorem exponentPart?_exponentText {exponent : Option (Bool × List Char)}
    (hexponent : ∀ e ∈ exponent, IsDigits e.2) :
    Document.exponentPart? (exponentText exponent)
      = some (exponent.map (Prod.map id digitValues), []) := by
  cases exponent with
  | none => rfl
  | some e =>
    obtain ⟨negative, u⟩ := e
    have hend : NoDigit [] := by simp [NoDigit]
    have hdigits := digits1?_append (hexponent _ rfl) hend
    rw [List.append_nil] at hdigits
    cases negative
    · show (Document.digits1? u).map _ = _
      rw [hdigits]
      rfl
    · show (Document.digits1? u).map _ = _
      rw [hdigits]
      rfl

/-- An exponent begins with its mark. -/
theorem head?_exponentText {exponent : Option (Bool × List Char)} {c : Char}
    (h : c ∈ (exponentText exponent).head?) : c = 'e' := by
  cases exponent with
  | none => cases h
  | some e => exact (Option.some.inj h).symm

/-- **A numeral is read by its parts.** -/
theorem unsigned?_numeralText {whole : List Char} {fraction : Option (List Char)}
    {exponent : Option (Bool × List Char)} (hwhole : IsWholePart whole)
    (hfraction : ∀ u ∈ fraction, IsDigits u) (hexponent : ∀ e ∈ exponent, IsDigits e.2) :
    Document.unsigned? false (numeralText whole fraction exponent)
      = some (⟨false, digitValues whole, fraction.map digitValues,
          exponent.map (Prod.map id digitValues)⟩, []) := by
  have hbehind : NoDigit (exponentText exponent) := by
    intro c hc
    rw [head?_exponentText hc]
    decide
  have hpoint : (exponentText exponent).head? ≠ some '.' := by
    intro hhead
    exact absurd (head?_exponentText hhead) (by decide)
  have hwholeBehind : NoDigit (fractionText fraction ++ exponentText exponent) := by
    cases fraction with
    | none => exact hbehind
    | some u => simp [NoDigit, fractionText]
  rw [numeralText, Document.unsigned?, wholePart?_append hwhole hwholeBehind]
  simp only [fractionPart?_append hfraction hbehind hpoint, exponentPart?_exponentText hexponent]

/-! ## 4. Natural numbers -/

/-- The digits of a natural number begin with zero only if it is zero. -/
theorem head?_toDigits {n : Nat} (h : (Nat.toDigits 10 n).head? = some '0') : n = 0 := by
  induction n using Nat.strongRecOn with
  | ind n ih =>
    by_cases hn : n < 10
    · rw [Nat.toDigits_of_lt_base hn] at h
      have hdigits : ∀ k < 10, Nat.digitChar k = '0' → k = 0 := by decide
      exact hdigits n hn (Option.some.inj h)
    · rw [Nat.toDigits_of_base_le (by decide) (by omega), List.head?_append_of_ne_nil _
        Nat.toDigits_ne_nil] at h
      have := ih (n / 10) (by omega) h
      omega

theorem isWholePart_toDigits (n : Nat) : IsWholePart (Nat.toDigits 10 n) := by
  refine ⟨isDigits_toDigits n, fun hhead => ?_⟩
  rw [head?_toDigits hhead]
  rfl

theorem numberOf?_toDigits {n : Nat} (h : n < UInt64.size) :
    numberOf? (Nat.toDigits 10 n) = some (.whole (UInt64.ofNat n)) := by
  have hread := @unsigned?_numeralText _ none none (isWholePart_toDigits n) (by simp) (by simp)
  have htext : numeralText (Nat.toDigits 10 n) none none = Nat.toDigits 10 n := by
    simp [numeralText, fractionText, exponentText]
  have hvalue : digitsValue (digitValues (Nat.toDigits 10 n)) = n := by
    rw [digitsValue_digitValues, Nat.ofDigitChars_ten_toDigits]
  rw [htext] at hread
  simp [numberOf?, hread, Numeral.exactly?, hvalue, h]

/-! ## 5. Binary64 numbers

For each layout: the digits with the point taken out are those of the decimal, with zeros where the layout
put them, and the point is as far from their end as the exponent says. -/

/-- The power of ten that a written exponent asks for. -/
def exponentPower : Option (Bool × List Char) → Int
  | none => 0
  | some (negative, digits) =>
    if negative then -(Nat.ofDigitChars 10 digits 0 : Int) else Nat.ofDigitChars 10 digits 0

/-- A numeral with a point or an exponent stands for the nearest binary64 number. -/
theorem numberOf?_numeralText {whole : List Char} {fraction : Option (List Char)}
    {exponent : Option (Bool × List Char)} (hwhole : IsWholePart whole)
    (hfraction : ∀ u ∈ fraction, IsDigits u) (hexponent : ∀ e ∈ exponent, IsDigits e.2)
    (hkind : fraction ≠ none ∨ exponent ≠ none) :
    numberOf? (numeralText whole fraction exponent)
      = ((Decimal.mk (Nat.ofDigitChars 10 (whole ++ fraction.getD []) 0)
          (exponentPower exponent - (fraction.getD []).length)).toBinary64? false).map .float := by
  have hpower : Numeral.power ⟨false, digitValues whole, fraction.map digitValues,
      exponent.map (Prod.map id digitValues)⟩ = exponentPower exponent := by
    cases exponent with
    | none => rfl
    | some e =>
      obtain ⟨negative, u⟩ := e
      cases negative <;> simp [Numeral.power, exponentPower, digitsValue_digitValues]
  have hdigits : digitsValue (digitValues whole ++ (fraction.map digitValues).getD [])
      = Nat.ofDigitChars 10 (whole ++ fraction.getD []) 0 := by
    rw [← digitsValue_digitValues]
    cases fraction <;> simp [digitValues]
  have hlength : ((fraction.map digitValues).getD []).length = (fraction.getD []).length := by
    cases fraction <;> simp [digitValues]
  have hreal : ((fraction.map digitValues).isNone
      && (exponent.map (Prod.map id digitValues)).isNone) = false := by
    rcases hkind with hkind | hkind
    · cases fraction <;> simp_all
    · cases exponent <;> simp_all
  simp only [numberOf?, unsigned?_numeralText hwhole hfraction hexponent, Numeral.exactly?,
    Numeral.decimal, hpower, hdigits, hlength, hreal, Bool.false_eq_true, if_false]

/-- Digits on both sides of a point. -/
theorem numberOf?_point {whole fraction : List Char} (hwhole : IsWholePart whole)
    (hfraction : IsDigits fraction) :
    numberOf? (whole ++ '.' :: fraction)
      = ((Decimal.mk (Nat.ofDigitChars 10 (whole ++ fraction) 0) (-fraction.length)).toBinary64?
          false).map .float := by
  have h := @numberOf?_numeralText _ (some fraction) none hwhole (by simpa using hfraction)
    (by simp) (.inl (by simp))
  simpa [numeralText, fractionText, exponentText, exponentPower] using h

namespace Decimal

variable {d : Decimal}

theorem isDigits_chars (d : Decimal) : IsDigits d.chars :=
  isDigits_toDigits d.digits

theorem ofDigitChars_chars (d : Decimal) : Nat.ofDigitChars 10 d.chars 0 = d.digits :=
  Nat.ofDigitChars_ten_toDigits

/-- The first digits of a decimal other than zero can stand before a point. -/
theorem isWholePart_of_head? {u : List Char} (hu : IsDigits u) (hhead : u.head? = d.chars.head?)
    (hdigits : d.digits ≠ 0) : IsWholePart u := by
  refine ⟨hu, fun hzero => absurd (head?_toDigits ?_) hdigits⟩
  rw [← hzero, hhead, chars]

/-- The digits and zeros up to the point, and one zero behind it. -/
theorem numberOf?_padded (hexponent : 0 ≤ d.exponent) (hzero : d.digits = 0 → d.exponent = 0) :
    numberOf? (d.chars ++ List.replicate d.exponent.toNat '0' ++ '.' :: ['0'])
      = (d.toBinary64? false).map .float := by
  have hwhole : IsWholePart (d.chars ++ List.replicate d.exponent.toNat '0') := by
    by_cases hdigits : d.digits = 0
    · simpa [hzero hdigits, chars, hdigits] using isWholePart_toDigits 0
    · refine isWholePart_of_head? ⟨by simp [d.isDigits_chars.1], fun c hc => ?_⟩
        (List.head?_append_of_ne_nil _ d.isDigits_chars.1) hdigits
      rcases List.mem_append.mp hc with hc | hc
      · exact d.isDigits_chars.2 c hc
      · exact isDigit_of_mem_replicate hc
  have hvalue : Nat.ofDigitChars 10 (d.chars ++ List.replicate d.exponent.toNat '0' ++ ['0']) 0
      = d.digits * Nat.pow 10 (d.exponent.toNat + 1) := by
    rw [List.append_assoc, ← List.replicate_succ', Nat.ofDigitChars_append, ofDigitChars_chars,
      ofDigitChars_replicate_zero]
  have hpower : d.exponent - (d.exponent.toNat + 1 : Nat) = -1 := by omega
  have hscale := toBinary64?_scale d.digits (d.exponent.toNat + 1) d.exponent false
  rw [hpower] at hscale
  rw [numberOf?_point hwhole ⟨by simp, List.all_eq_true.mp rfl⟩, hvalue]
  exact congrArg _ hscale

/-- The point between the digits. -/
theorem numberOf?_divided {places : Nat} (hexponent : d.exponent = -places) (hpos : 0 < places)
    (hplaces : places < d.chars.length) :
    numberOf? (d.chars.take (d.chars.length - places) ++ '.' :: d.chars.drop (d.chars.length - places))
      = (d.toBinary64? false).map .float := by
  have hdigits : d.digits ≠ 0 := by
    intro hdigits
    simp [chars, hdigits] at hplaces
    omega
  have hne : d.chars.take (d.chars.length - places) ≠ [] := by
    rw [Ne, List.take_eq_nil_iff]
    rintro (hnone | hnil)
    · omega
    · exact d.isDigits_chars.1 hnil
  have hwhole : IsWholePart (d.chars.take (d.chars.length - places)) := by
    refine isWholePart_of_head? ⟨hne, fun c hc => ?_⟩ ?_ hdigits
    · exact d.isDigits_chars.2 c (List.mem_of_mem_take hc)
    · rw [← List.head?_append_of_ne_nil _ hne, List.take_append_drop]
  have hfraction : IsDigits (d.chars.drop (d.chars.length - places)) := by
    refine ⟨?_, fun c hc => d.isDigits_chars.2 c (List.mem_of_mem_drop hc)⟩
    rw [Ne, List.drop_eq_nil_iff]
    omega
  have hlength : (d.chars.drop (d.chars.length - places)).length = places := by
    rw [List.length_drop]
    omega
  rw [numberOf?_point hwhole hfraction, List.take_append_drop, ofDigitChars_chars, hlength,
    ← hexponent]

/-- Zeros between the point and the digits. -/
theorem numberOf?_small {places : Nat} (hexponent : d.exponent = -places)
    (hplaces : d.chars.length ≤ places) :
    numberOf? (['0'] ++ '.' :: (List.replicate (places - d.chars.length) '0' ++ d.chars))
      = (d.toBinary64? false).map .float := by
  have hwhole : IsWholePart ['0'] := isWholePart_toDigits 0
  have hfraction : IsDigits (List.replicate (places - d.chars.length) '0' ++ d.chars) := by
    refine ⟨by simp [d.isDigits_chars.1], fun c hc => ?_⟩
    rcases List.mem_append.mp hc with hc | hc
    · exact isDigit_of_mem_replicate hc
    · exact d.isDigits_chars.2 c hc
  have hlength : (List.replicate (places - d.chars.length) '0' ++ d.chars).length = places := by
    rw [List.length_append, List.length_replicate]
    omega
  have hvalue : Nat.ofDigitChars 10
      (['0'] ++ (List.replicate (places - d.chars.length) '0' ++ d.chars)) 0 = d.digits := by
    rw [List.singleton_append, ← List.cons_append, ← List.replicate_succ, Nat.ofDigitChars_append,
      ofDigitChars_replicate_zero, Nat.zero_mul, ofDigitChars_chars]
  rw [numberOf?_point hwhole hfraction, hvalue, hlength, ← hexponent]

/-- **The positional layout stands for the decimal.** -/
theorem numberOf?_positional (hzero : d.digits = 0 → d.exponent = 0) :
    numberOf? (d.positional.1 ++ '.' :: if d.positional.2.isEmpty then ['0'] else d.positional.2)
      = (d.toBinary64? false).map .float := by
  unfold positional
  simp only
  split
  · next hexponent =>
    rw [List.isEmpty_nil, if_pos rfl]
    exact numberOf?_padded hexponent hzero
  · next hexponent =>
    have hplaces : d.exponent = -((-d.exponent).toNat : Nat) := by omega
    split
    · next hlt =>
      have hne : (d.chars.drop (d.chars.length - (-d.exponent).toNat)).isEmpty = false := by
        rw [List.isEmpty_eq_false_iff, Ne, List.drop_eq_nil_iff]
        omega
      rw [hne, if_neg (by simp)]
      exact numberOf?_divided hplaces (by omega) hlt
    · next hle =>
      have hne : (List.replicate ((-d.exponent).toNat - d.chars.length) '0' ++ d.chars).isEmpty
          = false := by
        simp [d.isDigits_chars.1]
      rw [hne, if_neg (by simp)]
      exact numberOf?_small hplaces (by omega)

/-- The exponent of the scientific layout, for `exponentText`. -/
def scientificExponent (d : Decimal) : Option (Bool × List Char) :=
  some (decide (d.leading < 0), Nat.toDigits 10 d.leading.natAbs)

theorem exponentPower_scientificExponent (d : Decimal) :
    exponentPower d.scientificExponent = d.leading := by
  simp only [scientificExponent, exponentPower, Nat.ofDigitChars_ten_toDigits, decide_eq_true_eq]
  split <;> omega

/-- **The scientific layout stands for the decimal.** -/
theorem numberOf?_scientific (d : Decimal) :
    numberOf? d.scientific = (d.toBinary64? false).map .float := by
  obtain ⟨c, w, hchars⟩ := List.exists_cons_of_ne_nil d.isDigits_chars.1
  obtain ⟨hc, hw⟩ := List.forall_mem_cons.mp (hchars ▸ d.isDigits_chars.2)
  have hleading : d.leading = d.exponent + w.length := by
    rw [leading, hchars, List.length_cons]
    omega
  -- there is a point exactly if there is a second digit
  let fraction : Option (List Char) := if w = [] then none else some w
  have htext : d.scientific = numeralText [c] fraction d.scientificExponent := by
    by_cases hnil : w = []
    · simp [scientific, hchars, fraction, hnil, numeralText, fractionText, exponentText,
        scientificExponent]
    · simp [scientific, hchars, fraction, hnil, numeralText, fractionText, exponentText,
        scientificExponent]
  have hfraction : ∀ u ∈ fraction, IsDigits u := by
    intro u hu
    by_cases hnil : w = []
    · simp [fraction, hnil] at hu
    · obtain rfl : w = u := by simpa [fraction, hnil] using hu
      exact ⟨hnil, hw⟩
  have hgetD : fraction.getD [] = w := by
    by_cases hnil : w = [] <;> simp [fraction, hnil]
  have hwhole : IsWholePart [c] := ⟨⟨by simp, by simpa using hc⟩, fun _ => rfl⟩
  have hexponent : ∀ e ∈ d.scientificExponent, IsDigits e.2 := by
    rintro e ⟨⟩
    exact isDigits_toDigits _
  have hvalue : Nat.ofDigitChars 10 ([c] ++ w) 0 = d.digits := by
    rw [List.singleton_append, ← hchars, ofDigitChars_chars]
  have hpower : d.exponent + w.length - w.length = d.exponent := by omega
  rw [htext, numberOf?_numeralText hwhole hfraction hexponent (.inr (by simp [scientificExponent])),
    hgetD, hvalue, exponentPower_scientificExponent, hleading, hpower]

end Decimal

/-! ## 6. The text of a number -/

namespace Number

/-- A number with its sign left out. -/
def magnitude : Number → Number
  | whole n => whole n
  | negSucc k => whole (UInt64.ofNat (k.val + 1))
  | float x => float { x with negative := false }

/-- A number that is written with a minus sign. -/
def isNegative : Number → Bool
  | whole _ => false
  | negSucc _ => true
  | float x => x.negative

end Number

theorem isNumeral_toDigits (n : Nat) : IsNumeral (Nat.toDigits 10 n) := by
  rw [← Nat.toList_repr]
  exact isNumeral_repr n

theorem mem_signed {x : Binary64} {u : List Char} {c : Char} (h : c ∈ u) :
    c ∈ (x.signed u).toList := by
  rw [Binary64.signed, String.toList_ofList]
  split
  · exact List.mem_cons_of_mem _ h
  · exact h

/-- The text of a binary64 number without its sign. -/
theorem Binary64.exists_jsonText (x : Binary64) :
    ∃ u, x.jsonText = x.signed u ∧ IsNumeral u ∧
      numberOf? u = some (.float { x with negative := false }) := by
  have hreads : ((x.shortest .toEven).toBinary64? false).map Number.float
      = some (.float { x with negative := false }) :=
    congrArg _ (ofRatio?_sign (x.toBinary64?_shortest .toEven) false)
  have hlayout : ∃ u, x.jsonText = x.signed u ∧
      numberOf? u = ((x.shortest .toEven).toBinary64? false).map .float := by
    unfold jsonText
    simp only
    split
    · exact ⟨_, rfl, Decimal.numberOf?_positional exponent_shortest_of_digits_eq_zero⟩
    · exact ⟨_, rfl, Decimal.numberOf?_scientific _⟩
  obtain ⟨u, htext, hu⟩ := hlayout
  rw [hreads] at hu
  refine ⟨u, htext, ⟨?_, fun c hc => ?_⟩, hu⟩
  · rintro rfl
    cases hu
  · exact (isNumeral_jsonText x).2 c (htext ▸ mem_signed hc)

/-- **The text of a number is a numeral for its magnitude**, behind a minus sign if it is negative. -/
theorem Number.exists_text (n : Number) :
    ∃ u, IsNumeral u ∧ numberOf? u = some n.magnitude ∧
      n.text.toList = if n.isNegative then '-' :: u else u := by
  cases n with
  | whole n =>
    refine ⟨Nat.toDigits 10 n.toNat, isNumeral_toDigits _, ?_, by simp [text, isNegative]⟩
    rw [numberOf?_toDigits n.toNat_lt, UInt64.ofNat_toNat]
    rfl
  | negSucc k =>
    refine ⟨Nat.toDigits 10 (k.val + 1), isNumeral_toDigits _, ?_, by simp [text, isNegative]⟩
    refine numberOf?_toDigits ?_
    have hk := k.isLt
    have hsize : UInt64.size = 0x10000000000000000 := rfl
    omega
  | float x =>
    obtain ⟨u, htext, hnumeral, hreads⟩ := x.exists_jsonText
    refine ⟨u, hnumeral, hreads, ?_⟩
    rw [text, htext, Binary64.signed, String.toList_ofList]
    rfl

/-! ## 7. Numbers with a sign

The kind of a number is kept as well: a whole number behind a minus sign is a negative integer, and a
binary64 number behind one is a binary64 number, negative zero included. -/

/-- A numeral begins with a digit. -/
theorem exists_digit_of_numberOf? {u : List Char} {n : Number} (h : numberOf? u = some n) :
    ∃ c w, u = c :: w ∧ c.isDigit = true := by
  cases u with
  | nil => cases h
  | cons c w =>
    refine ⟨c, w, rfl, ?_⟩
    by_contra hdigit
    have hdigits : Document.digits (c :: w) = ([], c :: w) := by
      simp [Document.digits, digit?_of_not_isDigit (by simpa using hdigit)]
    simp [numberOf?, Document.unsigned?, Document.wholePart?, hdigits] at h

namespace Number

/-- The number with this magnitude and a minus sign. -/
def negated? : Number → Option Number
  | whole n =>
    if h : 0 < n.toNat ∧ n.toNat - 1 < 0x8000000000000000 then
      some (negSucc ⟨n.toNat - 1, h.2⟩)
    else none
  | negSucc _ => none
  | float x => some (float { x with negative := true })

theorem magnitude_of_not_isNegative {n : Number} (h : n.isNegative = false) : n.magnitude = n := by
  cases n with
  | whole n => rfl
  | negSucc k => cases h
  | float x =>
    cases x
    cases h
    rfl

theorem negated?_magnitude {n : Number} (h : n.isNegative = true) : n.magnitude.negated? = some n := by
  cases n with
  | whole n => cases h
  | negSucc k =>
    have hk := k.isLt
    have hvalue : (UInt64.ofNat (k.val + 1)).toNat = k.val + 1 := by
      rw [UInt64.toNat_ofNat']
      exact Nat.mod_eq_of_lt (by omega)
    rw [magnitude, negated?, dif_pos ⟨by omega, by omega⟩]
    simp only [hvalue, Nat.add_sub_cancel]
  | float x =>
    cases x
    cases h
    rfl

end Number

/-- The number of a text that is one numeral, with a sign or without. -/
def signedNumberOf? : List Char → Option Number
  | '-' :: u => (numberOf? u).bind Number.negated?
  | u => numberOf? u

/-- **The text of a number is read as the number.** -/
theorem signedNumberOf?_text (n : Number) : signedNumberOf? n.text.toList = some n := by
  obtain ⟨u, -, hu, htext⟩ := n.exists_text
  rw [htext]
  cases hneg : n.isNegative with
  | true =>
    rw [if_pos rfl, signedNumberOf?, hu]
    exact Number.negated?_magnitude hneg
  | false =>
    -- a digit comes first, and so no sign
    obtain ⟨c, w, rfl, hdigit⟩ := exists_digit_of_numberOf? hu
    have hsign : c ≠ '-' := by
      rintro rfl
      exact absurd hdigit (by decide)
    rw [Number.magnitude_of_not_isNegative hneg] at hu
    rw [if_neg Bool.false_ne_true, signedNumberOf?, hu]
    simpa using hsign

end IndexQuery
