/-
# Maps from names, in the order of the names

Members of a JSON object and fields of a schema are kept sorted by name.  The order is that of
code points, which is also the byte order of UTF-8.  `insertNamed` puts an entry in its place and
replaces the one of the same name, so the last of several insertions under a name holds.

`NameMap` carries the order in its type: its entries are strictly increasing (`sorted`), hence
each name has one entry, and two maps with the same entries are equal.
-/

namespace IndexQuery

variable {α : Type}

/-- Puts an entry in its place, replacing the entry of the same name. -/
def insertNamed (name : String) (value : α) : List (String × α) → List (String × α)
  | [] => [(name, value)]
  | entry :: rest =>
    if name < entry.1 then (name, value) :: entry :: rest
    else if name = entry.1 then (name, value) :: rest
    else entry :: insertNamed name value rest

/-- The value under a name. -/
def findNamed? (name : String) : List (String × α) → Option α
  | [] => none
  | entry :: rest => if entry.1 = name then some entry.2 else findNamed? name rest

/-! ## 1. What an insertion does -/

theorem mem_insertNamed {name : String} {value : α} {e : String × α} :
    ∀ {entries : List (String × α)},
      e ∈ insertNamed name value entries → e = (name, value) ∨ e ∈ entries
  | [], h => by simpa [insertNamed] using h
  | entry :: rest, h => by
    rw [insertNamed] at h
    split at h
    · simpa using h
    · split at h
      · rcases List.mem_cons.mp h with h | h
        · exact .inl h
        · exact .inr (List.mem_cons_of_mem _ h)
      · rcases List.mem_cons.mp h with h | h
        · exact .inr (h ▸ List.mem_cons_self)
        · rcases mem_insertNamed h with h | h
          · exact .inl h
          · exact .inr (List.mem_cons_of_mem _ h)

/-- An insertion keeps the entries strictly increasing. -/
theorem insertNamed_sorted {name : String} {value : α} :
    ∀ {entries : List (String × α)}, entries.Pairwise (fun a b => a.1 < b.1) →
      (insertNamed name value entries).Pairwise (fun a b => a.1 < b.1)
  | [], _ => by simp [insertNamed]
  | entry :: rest, h => by
    obtain ⟨hhead, htail⟩ := List.pairwise_cons.mp h
    rw [insertNamed]
    split
    · next hlt =>
      refine List.pairwise_cons.mpr ⟨fun e he => ?_, h⟩
      rcases List.mem_cons.mp he with rfl | he
      · exact hlt
      · exact String.lt_trans hlt (hhead e he)
    · next hnot =>
      split
      · next heq =>
        subst heq
        exact List.pairwise_cons.mpr ⟨hhead, htail⟩
      · next hne =>
        refine List.pairwise_cons.mpr ⟨fun e he => ?_, insertNamed_sorted htail⟩
        rcases mem_insertNamed he with rfl | he
        · rcases Decidable.em (entry.1 < name) with hlt | hge
          · exact hlt
          · exact absurd (String.le_antisymm (String.not_lt.mp hge) (String.not_lt.mp hnot)) hne
        · exact hhead e he

/-- An entry with the greatest name goes to the end. -/
theorem insertNamed_of_forall_lt {name : String} {value : α} :
    ∀ {entries : List (String × α)}, (∀ e ∈ entries, e.1 < name) →
      insertNamed name value entries = entries ++ [(name, value)]
  | [], _ => rfl
  | entry :: rest, h => by
    have hlt : entry.1 < name := h entry List.mem_cons_self
    have hrest : insertNamed name value rest = rest ++ [(name, value)] :=
      insertNamed_of_forall_lt fun e he => h e (List.mem_cons_of_mem _ he)
    have hne : name ≠ entry.1 := fun heq => String.lt_irrefl name (heq ▸ hlt)
    rw [insertNamed, if_neg (fun hgt => String.lt_irrefl _ (String.lt_trans hlt hgt)), if_neg hne, hrest]
    rfl

/-! ## 2. What is found under a name -/

theorem findNamed?_of_mem {members : List (String × α)} (hnodup : (members.map (·.1)).Nodup)
    {key : String} {value : α} (hmem : (key, value) ∈ members) :
    findNamed? key members = some value := by
  induction members with
  | nil => cases hmem
  | cons m members ih =>
    obtain ⟨hnew, hnodup⟩ := List.nodup_cons.mp hnodup
    rcases List.mem_cons.mp hmem with rfl | hmem
    · simp [findNamed?]
    · have hne : m.1 ≠ key := by
        rintro rfl
        exact hnew (List.mem_map.mpr ⟨_, hmem, rfl⟩)
      rw [findNamed?, if_neg hne, ih hnodup hmem]

theorem findNamed?_of_not_mem {members : List (String × α)} {key : String}
    (h : key ∉ members.map (·.1)) : findNamed? key members = none := by
  induction members with
  | nil => rfl
  | cons m members ih =>
    have hne : m.1 ≠ key := fun heq => h (by simp [heq])
    rw [findNamed?, if_neg hne, ih fun hmem => h (by simp_all)]

/-! ## 3. The map -/

/-- Entries with strictly increasing names. -/
structure NameMap (α : Type) where
  entries : List (String × α)
  sorted : entries.Pairwise (fun a b => a.1 < b.1)
  deriving DecidableEq

namespace NameMap

/-- The map without entries. -/
def empty : NameMap α :=
  ⟨[], List.Pairwise.nil⟩

/-- The map with a value under a name. -/
def insert (m : NameMap α) (name : String) (value : α) : NameMap α :=
  ⟨insertNamed name value m.entries, insertNamed_sorted m.sorted⟩

/-- The value under a name. -/
def find? (m : NameMap α) (name : String) : Option α :=
  findNamed? name m.entries

/-- The map of a list of entries, the last one of a name holding. -/
def ofList (entries : List (String × α)) : NameMap α :=
  entries.foldl (fun m e => m.insert e.1 e.2) empty

theorem eq_of_entries_eq : ∀ {m m' : NameMap α}, m.entries = m'.entries → m = m'
  | ⟨_, _⟩, ⟨_, _⟩, rfl => rfl

/-- Entries beyond all that are there are added in their order. -/
theorem entries_foldl_insert (before : NameMap α) {after : List (String × α)}
    (h : (before.entries ++ after).Pairwise (fun a b => a.1 < b.1)) :
    (after.foldl (fun m e => m.insert e.1 e.2) before).entries = before.entries ++ after := by
  induction after generalizing before with
  | nil => simp
  | cons e after ih =>
    have hinsert : (before.insert e.1 e.2).entries = before.entries ++ [e] :=
      insertNamed_of_forall_lt fun e' he' =>
        (List.pairwise_append.mp h).2.2 e' he' e List.mem_cons_self
    have happend : before.entries ++ e :: after = (before.insert e.1 e.2).entries ++ after := by
      rw [hinsert, List.append_assoc]
      rfl
    rw [List.foldl_cons, happend]
    exact ih _ (happend ▸ h)

/-- A map is the map of its entries. -/
theorem ofList_entries (m : NameMap α) : ofList m.entries = m :=
  eq_of_entries_eq (entries_foldl_insert empty m.sorted)

/-- The names, in increasing order. -/
def names (m : NameMap α) : List String :=
  m.entries.map (·.1)

theorem names_sorted (m : NameMap α) : m.names.Pairwise (· < ·) :=
  List.pairwise_map.mpr m.sorted

end NameMap

end IndexQuery
