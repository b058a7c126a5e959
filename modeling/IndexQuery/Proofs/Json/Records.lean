/-
# Records in JSON

A record is read by the names of its parts, and it has two notations: an object with a member for each
part, in any order, or the array of the parts.  A part with a default may be left out, of an object
anywhere and of an array at the end (`RecordForm`).

Whichever notation is chosen, the reader finds for each part its value, or nothing if the part was left
out and so has its default (`RecordForm.exists_record?`).  A part that is read with the right default thus
comes out the same either way (`Finds.orDefault`).
-/
import IndexQuery.Proofs.Json.RoundTrip
import Mathlib.Data.List.Nodup

namespace IndexQuery

/-! ## 1. Notations of a record -/

/-- **The notations of a record**, from its parts and from those that need not be written: an object of the
others in any order, or an array of the parts up to the last one that is written. -/
inductive RecordForm (parts defaults : List (String × Json)) : Json → Prop
  | object {written left : List (String × Json)} :
      (written ++ left).Perm parts → (∀ part ∈ left, part ∈ defaults) →
      RecordForm parts defaults (.obj written)
  | array {written left : List (String × Json)} :
      written ++ left = parts → (∀ part ∈ left, part ∈ defaults) →
      RecordForm parts defaults (.arr (written.map (·.2)))

/-- A record may be written in full, in any order. -/
theorem RecordForm.full {parts members : List (String × Json)} (h : members.Perm parts)
    (defaults : List (String × Json)) : RecordForm parts defaults (.obj members) :=
  @RecordForm.object parts defaults members [] (by rwa [List.append_nil]) (by simp)

/-- A record is without numbers if its parts are. -/
theorem RecordForm.isNumberFree {parts defaults : List (String × Json)} {j : Json}
    (h : RecordForm parts defaults j) (hparts : ∀ part ∈ parts, part.2.isNumberFree = true) :
    j.isNumberFree = true := by
  cases h with
  | @object written left hperm _ =>
    rw [Json.isNumberFree, Json.membersAreNumberFree_eq_all, List.all_eq_true]
    intro part hpart
    exact hparts part (hperm.mem_iff.mp (List.mem_append_left left hpart))
  | @array written left heq _ =>
    rw [Json.isNumberFree, Json.areNumberFree_eq_all, List.all_map, List.all_eq_true]
    intro part hpart
    exact hparts part (heq ▸ List.mem_append_left left hpart)

/-- What a reader finds for a part: its value, or nothing, if the part is a default. -/
def Finds (defaults : List (String × Json)) (part : String × Json) (found : Option Document) : Prop :=
  found = some (.ofJson part.2) ∨ found = none ∧ part ∈ defaults

theorem Finds.eq_some {defaults : List (String × Json)} {part : String × Json}
    {found : Option Document} (h : Finds defaults part found) (hpart : part ∉ defaults) :
    found = some (.ofJson part.2) := by
  rcases h with h | ⟨-, hdefault⟩
  · exact h
  · exact absurd hdefault hpart

/-- A part is read the same whether it is written or left out. -/
theorem Finds.orDefault {α : Type} {defaults : List (String × Json)} {part : String × Json}
    {found : Option Document} (h : Finds defaults part found) {read? : Document → Option α}
    {default value : α} (hread : read? (.ofJson part.2) = some value)
    (hdefault : part ∈ defaults → value = default) :
    Document.orDefault read? default found = some value := by
  rcases h with rfl | ⟨rfl, hpart⟩
  · exact hread
  · rw [hdefault hpart]
    rfl

namespace Document

/-! ## 2. Members and items as documents -/

theorem named?_ofMembers (members : List (String × Json)) :
    named? (ofMembers members) = some (members.map fun m => (m.1, ofJson m.2)) := by
  induction members with
  | nil => rfl
  | cons m members ih =>
    obtain ⟨key, value⟩ := m
    simp [ofMembers, named?, ih]

theorem ofItems_eq_map (items : List Json) : ofItems items = items.map ofJson := by
  induction items with
  | nil => rfl
  | cons item items ih => rw [ofItems, ih, List.map_cons]

/-! ## 3. Reading a record -/

theorem record?_object {members : List (String × Json)} (hnodup : (members.map (·.1)).Nodup)
    (names : List String) :
    (ofJson (.obj members)).record? names
      = some (names.map fun name => findNamed? name (members.map fun m => (m.1, ofJson m.2))) := by
  have honce : names.all (fun name =>
      (members.map fun m => (m.1, ofJson m.2)).countP (·.1 == name) ≤ 1) = true := by
    rw [List.all_eq_true]
    intro name _
    have hcount := List.nodup_iff_count_le_one.mp hnodup name
    rw [List.count, List.countP_map] at hcount
    rw [List.countP_map, decide_eq_true_iff]
    exact hcount
  rw [ofJson, record?, named?_ofMembers]
  simp only [honce, if_true]

/-- A list that is looked up place by place, also beyond its end. -/
theorem map_getElem?_range {α : Type} (xs : List α) (n : Nat) :
    (List.range (xs.length + n)).map (fun i => xs[i]?) = xs.map some ++ List.replicate n none := by
  induction xs with
  | nil => simp [List.map_const']
  | cons x xs ih =>
    rw [List.length_cons, Nat.add_right_comm, List.range_succ_eq_map, List.map_cons, List.map_map]
    exact congrArg (some x :: ·) ih

theorem record?_array (written left : List (String × Json)) :
    (ofJson (.arr (written.map (·.2)))).record? ((written ++ left).map (·.1))
      = some (written.map (fun part => some (ofJson part.2)) ++ left.map fun _ => none) := by
  have hlength : ((written ++ left).map (·.1)).length
      = ((written.map (·.2)).map ofJson).length + left.length := by
    simp
  rw [ofJson, record?, ofItems_eq_map, hlength, if_pos (Nat.le_add_right _ _), map_getElem?_range]
  simp [Function.comp_def]

end Document

theorem RecordForm.exists_record? {parts defaults : List (String × Json)} {j : Json}
    (h : RecordForm parts defaults j) (hnodup : (parts.map (·.1)).Nodup) :
    ∃ found, (Document.ofJson j).record? (parts.map (·.1)) = some found ∧
      List.Forall₂ (Finds defaults) parts found := by
  cases h with
  | @object written left hperm hleft =>
    have hnames : ((written ++ left).map (·.1)).Nodup := (hperm.map _).nodup_iff.mpr hnodup
    rw [List.map_append, List.nodup_append] at hnames
    obtain ⟨hwritten, -, hdisjoint⟩ := hnames
    refine ⟨_, Document.record?_object hwritten _, ?_⟩
    rw [List.map_map, List.forall₂_map_right_iff, List.forall₂_same]
    intro part hpart
    have hkeys : (written.map fun m => (m.1, Document.ofJson m.2)).map (·.1) = written.map (·.1) := by
      rw [List.map_map]
      rfl
    rcases List.mem_append.mp (hperm.mem_iff.mpr hpart) with hmem | hmem
    · exact .inl (findNamed?_of_mem (hkeys ▸ hwritten) (List.mem_map.mpr ⟨part, hmem, rfl⟩))
    · refine .inr ⟨findNamed?_of_not_mem ?_, hleft part hmem⟩
      rw [hkeys]
      intro hname
      exact hdisjoint _ hname _ (List.mem_map.mpr ⟨part, hmem, rfl⟩) rfl
  | @array written left heq hleft =>
    subst heq
    refine ⟨_, Document.record?_array written left, ?_⟩
    refine List.rel_append ?_ ?_
    · rw [List.forall₂_map_right_iff, List.forall₂_same]
      exact fun part _ => .inl rfl
    · rw [List.forall₂_map_right_iff, List.forall₂_same]
      exact fun part hpart => .inr ⟨rfl, hleft part hpart⟩

end IndexQuery
