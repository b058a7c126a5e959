/-
# Readers

A reader takes a part off the front of a list and returns its value with what stands behind.  Here is
what readers of characters and readers of arguments have in common: a list whose elements are read
one by one, and parts one after another (`readAll`).
-/

namespace IndexQuery

variable {τ α β : Type}

/-! ## 1. Single values

Facts about the two ways in which a reader is put together: another reader whose value is changed, and a run
of elements of one class. -/

/-- A result whose value alone was changed is a result. -/
theorem map_value_eq_some {f : α → β} {o : Option (α × List τ)} {y : β} {rest : List τ}
    (h : o.map (Prod.map f id) = some (y, rest)) : ∃ x, o = some (x, rest) ∧ y = f x := by
  obtain ⟨⟨x, r⟩, hr, heq⟩ := Option.map_eq_some_iff.mp h
  obtain ⟨rfl, rfl⟩ := Prod.mk.inj heq
  exact ⟨x, hr, rfl⟩

/-- **A list is read element by element** if each element has one written form. -/
theorem mapM_eq_some_iff {read : τ → Option α} {write : α → τ} {ok : α → Prop}
    (hread : ∀ {x a}, read x = some a ↔ ok a ∧ x = write a) {xs : List τ} {as : List α} :
    xs.mapM read = some as ↔ (∀ a ∈ as, ok a) ∧ xs = as.map write := by
  induction xs generalizing as with
  | nil =>
    constructor
    · intro h
      cases h
      simp
    · rintro ⟨-, h⟩
      rw [List.map_eq_nil_iff.mp h.symm]
      rfl
  | cons x xs ih =>
    rw [List.mapM_cons]
    constructor
    · intro h
      obtain ⟨a, ha, h⟩ := Option.bind_eq_some_iff.mp h
      obtain ⟨as', has, h⟩ := Option.bind_eq_some_iff.mp h
      cases h
      obtain ⟨hok, rfl⟩ := hread.mp ha
      obtain ⟨hoks, rfl⟩ := ih.mp has
      refine ⟨fun a' ha' => ?_, rfl⟩
      rcases List.mem_cons.mp ha' with rfl | ha'
      · exact hok
      · exact hoks a' ha'
    · rintro ⟨hoks, h⟩
      cases as with
      | nil => cases h
      | cons a as =>
        obtain ⟨hx, hxs⟩ := List.cons.inj h
        have ha : read x = some a := hread.mpr ⟨hoks a (by simp), hx⟩
        have has : xs.mapM read = some as :=
          ih.mpr ⟨fun a' ha' => hoks a' (by simp [ha']), hxs⟩
        rw [ha, has]
        rfl

theorem ne_of_class {p : τ → Bool} {c d : τ} (hc : p c = true) (hd : p d = false) : c ≠ d := by
  rintro rfl
  rw [hc] at hd
  cases hd

/-- **A run ends where it can go on no longer.** -/
theorem span_append {p : τ → Bool} {u rest : List τ} (hu : ∀ c ∈ u, p c = true)
    (hrest : ∀ c ∈ rest.head?, p c = false) :
    (u ++ rest).takeWhile p = u ∧ (u ++ rest).dropWhile p = rest := by
  rw [List.takeWhile_append_of_pos hu, List.dropWhile_append_of_pos hu]
  cases rest with
  | nil => simp
  | cons c rest => simp [hrest c rfl]

theorem mem_intercalate {sep : List τ} {c : τ} : ∀ {us : List (List τ)},
    c ∈ sep.intercalate us → c ∈ sep ∨ ∃ u ∈ us, c ∈ u
  | [], h => by simp at h
  | [u], h => .inr ⟨u, by simp, by simpa using h⟩
  | u :: v :: us, h => by
    simp only [List.intercalate_cons_cons, List.mem_append, or_assoc] at h
    rcases h with h | h | h
    · exact .inr ⟨u, by simp, h⟩
    · exact .inl h
    · rcases mem_intercalate h with h | ⟨w, hw, h⟩
      · exact .inl h
      · exact .inr ⟨w, List.mem_cons_of_mem u hw, h⟩

/-! ## 2. Repetition

Parts stand one after another, and whether there is a next one is known from its beginning (`starts`).  The
fuel is no part of the language: no part is empty, so the length of the list is always enough. -/

section Repetition

variable (starts : List τ → Bool) (read : List τ → Option (α × List τ))

/-- Parts one after another as long as one starts, at most as many as `fuel`. -/
def readMany : Nat → List τ → Option (List α × List τ)
  | 0, v => if starts v then none else some ([], v)
  | fuel + 1, v =>
    if starts v then
      (read v).bind fun (a, v) => (readMany fuel v).map fun (as, rest) => (a :: as, rest)
    else some ([], v)

/-- Parts one after another as long as one starts. -/
def readAll (v : List τ) : Option (List α × List τ) :=
  readMany starts read v.length v

variable {starts read} {write : α → List τ}

/-- What is read is the parts one after another, and no part starts behind them. -/
theorem readMany_sound (hread : ∀ {v a rest}, read v = some (a, rest) → v = write a ++ rest) :
    ∀ {fuel : Nat} {v rest : List τ} {as : List α},
      readMany starts read fuel v = some (as, rest) →
        v = as.flatMap write ++ rest ∧ starts rest = false
  | fuel, v, rest, as, h => by
    by_cases hstarts : starts v = true
    · cases fuel with
      | zero => simp [readMany, hstarts] at h
      | succ fuel =>
        rw [readMany, if_pos hstarts] at h
        obtain ⟨⟨a, v'⟩, ha, h⟩ := Option.bind_eq_some_iff.mp h
        obtain ⟨⟨as', rest'⟩, has, h⟩ := Option.map_eq_some_iff.mp h
        cases h
        obtain ⟨rfl, hrest⟩ := readMany_sound hread has
        exact ⟨by simp [hread ha], hrest⟩
    · have hstop : readMany starts read fuel v = some ([], v) := by
        cases fuel <;> simp [readMany, hstarts]
      rw [hstop] at h
      cases h
      exact ⟨rfl, by simpa using hstarts⟩

/-- `follows` says what may stand behind a part, which every part may. -/
theorem readMany_complete {follows : List τ → Prop}
    (hread : ∀ {a rest}, follows rest → read (write a ++ rest) = some (a, rest))
    (hfollows : ∀ a rest, follows (write a ++ rest))
    (hstarts : ∀ a rest, starts (write a ++ rest) = true) {rest : List τ}
    (hrest : follows rest) (hstop : starts rest = false) (as : List α) :
    ∀ fuel, as.length ≤ fuel →
      readMany starts read fuel (as.flatMap write ++ rest) = some (as, rest) := by
  induction as with
  | nil =>
    intro fuel _
    cases fuel <;> simp [readMany, hstop]
  | cons a as ih =>
    intro fuel hfuel
    cases fuel with
    | zero => simp at hfuel
    | succ fuel =>
      have hnext : follows (as.flatMap write ++ rest) := by
        cases as with
        | nil => exact hrest
        | cons a' as' =>
          rw [List.flatMap_cons, List.append_assoc]
          exact hfollows _ _
      rw [List.flatMap_cons, List.append_assoc, readMany, if_pos (hstarts _ _), hread hnext]
      simp [ih fuel (by simpa using hfuel)]

theorem length_le_length_flatMap (hne : ∀ a, write a ≠ []) (as : List α) :
    as.length ≤ (as.flatMap write).length := by
  induction as with
  | nil => simp
  | cons a as ih =>
    have hpos : 0 < (write a).length := List.length_pos_iff.mpr (hne a)
    simp only [List.flatMap_cons, List.length_cons, List.length_append]
    omega

theorem readAll_complete (follows : List τ → Prop)
    (hread : ∀ {a rest}, follows rest → read (write a ++ rest) = some (a, rest))
    (hfollows : ∀ a rest, follows (write a ++ rest))
    (hstarts : ∀ a rest, starts (write a ++ rest) = true) (hne : ∀ a, write a ≠ [])
    {rest : List τ} (hrest : follows rest) (hstop : starts rest = false) (as : List α) :
    readAll starts read (as.flatMap write ++ rest) = some (as, rest) := by
  refine readMany_complete hread hfollows hstarts hrest hstop as _ ?_
  have hle := length_le_length_flatMap hne as
  rw [List.length_append]
  omega

end Repetition

end IndexQuery
