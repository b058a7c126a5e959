/-
# Schemas survive a save and a load

A schema is saved as a record of the index name and the fields, each field a record of its own, and each
record may be written in several ways (`Schema.WrittenAs`).  What a default is for the writer has to be the
default of the reader, or a field would come back as something else; that it is, is `ofDocument?_eq` of
fields and of schemas: every way to write a schema is read as that schema.

A schema that was read may still be refused, for a blank name.  Blank is what is empty once the blanks at
both ends are gone (`isBlankText_iff_trimmed`), and as fields are kept in the order of their names, the
first blank name is the least (`LeastBlank`).  The main result, `parseFrom_saved`, is that a saved schema
is read again exactly if it has no blank name, and that the error otherwise tells of the index, or else
names the least blank field in the order of bytes.
-/
import IndexQuery.Proofs.Json.Records
import IndexQuery.Proofs.Text.ByteOrder
import IndexQuery.Schema.File
import Mathlib.Data.List.DropRight

namespace IndexQuery

/-! ## 1. How a schema is written -/

/-- The parts of a field, as they are written in full. -/
def FieldSpec.parts (f : FieldSpec) : List (String × Json) :=
  [("kind", .str f.kind.name), ("value_type", .str f.valueType.name),
    ("searchable", .bool f.searchable)]

/-- The parts of a field that need not be written: the values are strings, and they are searched. -/
def FieldSpec.defaults : List (String × Json) :=
  [("value_type", .str ValueType.string.name), ("searchable", .bool true)]

/-- A field with its name, as a member of an object. -/
def FieldSpec.WrittenAs (entry : String × FieldSpec) (member : String × Json) : Prop :=
  member.1 = entry.1 ∧ RecordForm entry.2.parts defaults member.2

namespace Schema

/-- The index name, or null. -/
def indexJson (indexName : Option String) : Json :=
  (indexName.map Json.str).getD .null

/-- The parts of a schema, from the members that its fields are written as. -/
def parts (s : Schema) (members : List (String × Json)) : List (String × Json) :=
  [("index_name", indexJson s.indexName), ("fields", .obj members)]

/-- The parts of a schema that need not be written. -/
def defaults : List (String × Json) :=
  [("index_name", .null), ("fields", .obj [])]

/-- **The JSON values of a schema.**  The schema and each of its fields may be an object or an array, and
may leave out what has its default. -/
def WrittenAs (s : Schema) (j : Json) : Prop :=
  ∃ members, List.Forall₂ FieldSpec.WrittenAs s.fields.entries members ∧
    RecordForm (s.parts members) defaults j

/-! ## 2. The JSON form is one of the ways -/

theorem writtenAs_toJson (s : Schema) : s.WrittenAs s.toJson := by
  refine ⟨s.fields.entries.map fun e => (e.1, e.2.toJson), ?_, ?_⟩
  · rw [List.forall₂_map_right_iff, List.forall₂_same]
    intro e _
    exact ⟨rfl, .full (.cons _ (.swap _ _ _)) _⟩
  · exact .full (.swap _ _ _) _

end Schema

/-! ## 3. Every way to write a schema is read as that schema -/

theorem ValueType.eq_of_name_eq {t t' : ValueType} (h : t.name = t'.name) : t = t' := by
  have hsome : some t = some t' := by rw [← ofName?_name t, ← ofName?_name t', h]
  exact Option.some.inj hsome

/-- **Every way to write a field is read as that field.** -/
theorem FieldSpec.ofDocument?_eq {f : FieldSpec} {j : Json} (h : RecordForm f.parts defaults j) :
    ofDocument? (.ofJson j) = some f := by
  obtain ⟨found, hrecord, hfound⟩ := h.exists_record? (by simp [parts])
  obtain ⟨kind, _, hkind, hafterKind, rfl⟩ := List.forall₂_cons_left_iff.mp hfound
  obtain ⟨valueType, _, htype, hafterType, rfl⟩ := List.forall₂_cons_left_iff.mp hafterKind
  obtain ⟨searchable, _, hsearchable, hnone, rfl⟩ := List.forall₂_cons_left_iff.mp hafterType
  obtain rfl := List.forall₂_nil_left_iff.mp hnone
  obtain rfl := hkind.eq_some (by simp [defaults])
  have hkindRead : (Document.ofJson (.str f.kind.name)).variant?.bind FieldKind.ofName? = some f.kind :=
    FieldKind.ofName?_name f.kind
  have htypeRead : Document.orDefault (fun d => d.variant?.bind ValueType.ofName?) .string valueType
      = some f.valueType := by
    refine htype.orDefault (ValueType.ofName?_name f.valueType) ?_
    intro hdefault
    exact ValueType.eq_of_name_eq (by simpa [defaults] using hdefault)
  have hsearchableRead : Document.orDefault Document.bool? true searchable = some f.searchable := by
    refine hsearchable.orDefault rfl ?_
    intro hdefault
    simpa [defaults] using hdefault
  have hnames : f.parts.map (·.1) = ["kind", "value_type", "searchable"] := rfl
  rw [ofDocument?, ← hnames, hrecord]
  simp [hkindRead, htypeRead, hsearchableRead]

namespace Schema

/-- Fields that are written one way or another are read as these fields. -/
theorem mapM_ofDocument? {entries : List (String × FieldSpec)} {members : List (String × Json)}
    (h : List.Forall₂ FieldSpec.WrittenAs entries members) :
    (members.map fun m => (m.1, Document.ofJson m.2)).mapM
        (fun m => (FieldSpec.ofDocument? m.2).map fun spec => (m.1, spec))
      = some entries := by
  induction h with
  | nil => rfl
  | cons hhead _ ih =>
    obtain ⟨hname, hform⟩ := hhead
    rw [List.map_cons, List.mapM_cons, ih, FieldSpec.ofDocument?_eq hform, hname]
    rfl

theorem fieldsOf?_eq {fields : NameMap FieldSpec} {members : List (String × Json)}
    (h : List.Forall₂ FieldSpec.WrittenAs fields.entries members) :
    fieldsOf? (.ofJson (.obj members)) = some fields := by
  rw [Document.ofJson, fieldsOf?, Document.named?_ofMembers]
  simp [mapM_ofDocument? h, NameMap.ofList_entries]

theorem eq_none_of_indexJson {indexName : Option String} (h : indexJson indexName = .null) :
    indexName = none := by
  cases indexName with
  | none => rfl
  | some name => cases h

theorem indexNameOf?_eq (indexName : Option String) :
    indexNameOf? (.ofJson (indexJson indexName)) = some indexName := by
  cases indexName with
  | none => rfl
  | some name => rfl

/-- **Every way to write a schema is read as that schema.** -/
theorem ofDocument?_eq {s : Schema} {j : Json} (h : s.WrittenAs j) :
    ofDocument? (.ofJson j) = some s := by
  obtain ⟨members, hmembers, hform⟩ := h
  obtain ⟨found, hrecord, hfound⟩ := hform.exists_record? (by simp [parts])
  obtain ⟨indexName, _, hindex, hafterIndex, rfl⟩ := List.forall₂_cons_left_iff.mp hfound
  obtain ⟨fields, _, hfields, hnone, rfl⟩ := List.forall₂_cons_left_iff.mp hafterIndex
  obtain rfl := List.forall₂_nil_left_iff.mp hnone
  have hindexRead : Document.orDefault indexNameOf? none indexName = some s.indexName := by
    refine hindex.orDefault (indexNameOf?_eq s.indexName) ?_
    intro hdefault
    exact eq_none_of_indexJson (by simpa [defaults] using hdefault)
  have hfieldsRead : Document.orDefault fieldsOf? .empty fields = some s.fields := by
    refine hfields.orDefault (fieldsOf?_eq hmembers) ?_
    intro hdefault
    obtain rfl : members = [] := by simpa [defaults] using hdefault
    exact NameMap.eq_of_entries_eq (List.forall₂_nil_right_iff.mp hmembers)
  have hnames : (s.parts members).map (·.1) = ["index_name", "fields"] := rfl
  rw [ofDocument?, ← hnames, hrecord]
  simp [hindexRead, hfieldsRead]

/-! ## 4. The text of a schema -/

/-- Fields are written without numbers. -/
theorem isNumberFree_of_mem {entries : List (String × FieldSpec)} {members : List (String × Json)}
    (h : List.Forall₂ FieldSpec.WrittenAs entries members) :
    ∀ member ∈ members, member.2.isNumberFree = true := by
  induction h with
  | nil => simp
  | cons hhead _ ih =>
    intro member hmember
    rcases List.mem_cons.mp hmember with rfl | hmember
    · refine hhead.2.isNumberFree ?_
      simp [FieldSpec.parts, Json.isNumberFree]
    · exact ih member hmember

theorem isNumberFree_indexJson (indexName : Option String) :
    (indexJson indexName).isNumberFree = true := by
  cases indexName with
  | none => rfl
  | some name => rfl

/-- A schema is written without numbers. -/
theorem WrittenAs.isNumberFree {s : Schema} {j : Json} (h : s.WrittenAs j) :
    j.isNumberFree = true := by
  obtain ⟨members, hmembers, hform⟩ := h
  refine hform.isNumberFree ?_
  intro part hpart
  rcases List.mem_pair.mp hpart with rfl | rfl
  · exact isNumberFree_indexJson s.indexName
  · rw [Json.isNumberFree, Json.membersAreNumberFree_eq_all, List.all_eq_true]
    exact isNumberFree_of_mem hmembers

/-- **A saved schema is read as it was**, unless it has a fault of its own. -/
theorem parseFrom_text {s : Schema} {j : Json} (h : s.WrittenAs j) (path : String) :
    parseFrom path j.text = s.fault?.elim (.ok s) fun fault => .error (.malformed path fault) := by
  have hread : (Document.parse? j.text).bind ofDocument? = some s := by
    rw [Json.parse?_text h.isNumberFree]
    exact ofDocument?_eq h
  rw [parseFrom, parse, hread]
  cases hfault : s.fault? with
  | none => simp [hfault, Except.mapError]
  | some fault => simp [hfault, Except.mapError]

end Schema

/-! ## 5. Blank names -/

/-- A text without the blanks at its ends. -/
def trimmed (s : String) : String :=
  .ofList ((s.toList.dropWhile isBlank).rdropWhile isBlank)

/-- A text is blank if it is empty without the blanks at its ends. -/
theorem isBlankText_iff_trimmed (s : String) : isBlankText s = true ↔ trimmed s = "" := by
  rw [isBlankText, List.all_eq_true, trimmed, String.ofList_eq_empty_iff, List.rdropWhile_eq_nil_iff]
  constructor
  · intro hblank
    rw [List.dropWhile_eq_nil_iff.mpr hblank]
    simp
  · intro hrest
    -- A first character that is left would not be blank.
    have hnil : s.toList.dropWhile isBlank = [] := by
      by_contra hne
      have hhead := List.head_dropWhile_not isBlank hne
      rw [hrest _ (List.head_mem hne)] at hhead
      cases hhead
    exact List.dropWhile_eq_nil_iff.mp hnil

/-- The least blank name among some, in the order of bytes. -/
structure LeastBlank (names : List String) (name : String) : Prop where
  mem : name ∈ names
  blank : trimmed name = ""
  least : ∀ other ∈ names, trimmed other = "" → utf8Bytes name ≤ utf8Bytes other

/-- The first blank name of increasing names is the least. -/
theorem leastBlank_of_find? {names : List String} (hsorted : names.Pairwise (· < ·)) {name : String}
    (h : names.find? isBlankText = some name) : LeastBlank names name := by
  obtain ⟨hblank, before, after, rfl, hbefore⟩ := List.find?_eq_some_iff_append.mp h
  refine ⟨by simp, (isBlankText_iff_trimmed name).mp hblank, ?_⟩
  intro other hother hotherBlank
  rw [← isBlankText_iff_trimmed] at hotherBlank
  rw [← le_iff_utf8Bytes_le]
  rcases List.mem_append.mp hother with hmem | hmem
  · have hnot := hbefore other hmem
    simp [hotherBlank] at hnot
  · rcases List.mem_cons.mp hmem with rfl | hmem
    · exact String.le_refl other
    · have hlt := List.rel_of_pairwise_cons (List.pairwise_append.mp hsorted).2.1 hmem
      exact String.not_lt.mp (String.lt_asymm hlt)

namespace Schema

/-- The fault of a blank index name comes first. -/
theorem fault?_of_blank_index {s : Schema} (h : ∃ name ∈ s.indexName, trimmed name = "") :
    s.fault? = some .blankIndexName := by
  obtain ⟨name, hname, hblank⟩ := h
  rw [fault?, if_pos]
  exact (Option.any_eq_true ..).mpr ⟨name, hname, (isBlankText_iff_trimmed name).mpr hblank⟩

/-- Without a blank index name, the fault is that of a field. -/
theorem fault?_of_index {s : Schema} (h : ∀ name ∈ s.indexName, trimmed name ≠ "") :
    s.fault? = (s.fields.names.find? isBlankText).map .blankFieldName := by
  rw [fault?, if_neg]
  intro hany
  obtain ⟨name, hname, hblank⟩ := (Option.any_eq_true ..).mp hany
  exact h name hname ((isBlankText_iff_trimmed name).mp hblank)

/-- A schema is without fault if it has no blank name. -/
theorem fault?_eq_none_iff (s : Schema) :
    s.fault? = none ↔
      (∀ name ∈ s.indexName, trimmed name ≠ "") ∧ ∀ name ∈ s.fields.names, trimmed name ≠ "" := by
  by_cases hindex : ∃ name ∈ s.indexName, trimmed name = ""
  · rw [fault?_of_blank_index hindex]
    obtain ⟨name, hname, hblank⟩ := hindex
    exact ⟨fun h => (nomatch h), fun h => absurd hblank (h.1 name hname)⟩
  · have hindex : ∀ name ∈ s.indexName, trimmed name ≠ "" :=
      fun name hname hblank => hindex ⟨name, hname, hblank⟩
    rw [fault?_of_index hindex, Option.map_eq_none_iff, List.find?_eq_none]
    simp only [isBlankText_iff_trimmed]
    exact ⟨fun h => ⟨hindex, h⟩, fun h => h.2⟩

/-- A blank name of a field is a fault, and the least one is named. -/
theorem exists_fault?_of_blank_field {s : Schema} (hindex : ∀ name ∈ s.indexName, trimmed name ≠ "")
    (h : ∃ name ∈ s.fields.names, trimmed name = "") :
    ∃ name, LeastBlank s.fields.names name ∧ s.fault? = some (.blankFieldName name) := by
  cases hfind : s.fields.names.find? isBlankText with
  | none =>
    obtain ⟨name, hname, hblank⟩ := h
    exact absurd ((isBlankText_iff_trimmed name).mpr hblank) (List.find?_eq_none.mp hfind name hname)
  | some name =>
    refine ⟨name, leastBlank_of_find? s.fields.names_sorted hfind, ?_⟩
    rw [fault?_of_index hindex, hfind]
    rfl

/-! ## 6. A save and a load -/

/-- **Schemas survive a save and a load, and only valid ones are loaded.**  However a schema is written, it
is read as it was exactly if the index has no blank name and no field has one.  Otherwise the error tells
of the blank index name, and if that is none, of the least blank name of a field. -/
theorem parseFrom_saved (s : Schema) (path : String) :
    s.WrittenAs s.toJson ∧
      ∀ j, s.WrittenAs j →
        (parseFrom path j.text = .ok s ↔
          (∀ name ∈ s.indexName, trimmed name ≠ "") ∧ ∀ name ∈ s.fields.names, trimmed name ≠ "") ∧
        ((∃ name ∈ s.indexName, trimmed name = "") →
          parseFrom path j.text = .error (.malformed path .blankIndexName)) ∧
        ((∀ name ∈ s.indexName, trimmed name ≠ "") → (∃ name ∈ s.fields.names, trimmed name = "") →
          ∃ name, LeastBlank s.fields.names name ∧
            parseFrom path j.text = .error (.malformed path (.blankFieldName name))) := by
  refine ⟨writtenAs_toJson s, ?_⟩
  intro j hwritten
  rw [parseFrom_text hwritten]
  refine ⟨?_, ?_, ?_⟩
  · rw [← fault?_eq_none_iff]
    cases s.fault? with
    | none => exact ⟨fun _ => rfl, fun _ => rfl⟩
    | some fault => exact ⟨fun h => (nomatch h), fun h => (nomatch h)⟩
  · intro hindex
    rw [fault?_of_blank_index hindex]
    rfl
  · intro hindex hfield
    obtain ⟨name, hleast, hfault⟩ := exists_fault?_of_blank_field hindex hfield
    refine ⟨name, hleast, ?_⟩
    rw [hfault]
    rfl

/-- A schema with two blank names of fields, a space and the wide space of U+3000. -/
def unnamedPlaces : Schema :=
  ⟨some "people", ⟨[(" ", .hidden .geo), ("age", .numeric), ("city", .tag), ("\u3000", .text)],
    by decide⟩⟩

/-- A field in full and in another order, one as an array without its last default, one that leaves out
both defaults and one as an array in full. -/
def unnamedPlacesJson : Json :=
  .obj [("fields", .obj
    [(" ", .obj [("searchable", .bool false), ("value_type", .str "geo"), ("kind", .str "geo")]),
     ("age", .arr [.str "numeric", .str "float"]),
     ("city", .obj [("kind", .str "tag")]),
     ("\u3000", .arr [.str "text", .str "string", .bool true])]),
    ("index_name", .str "people")]

theorem writtenAs_unnamedPlaces : unnamedPlaces.WrittenAs unnamedPlacesJson := by
  refine ⟨_, ?_, .full (.swap _ _ _) _⟩
  refine .cons ⟨rfl, ?_⟩ (.cons ⟨rfl, ?_⟩ (.cons ⟨rfl, ?_⟩ (.cons ⟨rfl, ?_⟩ .nil)))
  · exact .full (List.reverse_perm (FieldSpec.parts (.hidden .geo))) _
  · exact @RecordForm.array _ _ ((FieldSpec.parts .numeric).take 2) [("searchable", .bool true)]
      rfl (by simp [FieldSpec.defaults])
  · exact @RecordForm.object _ _ ((FieldSpec.parts .tag).take 1) FieldSpec.defaults (.refl _) (by simp)
  · exact @RecordForm.array _ _ (FieldSpec.parts .text) [] rfl (by simp)

/-- A schema that is loaded, one with a blank index name, and one whose least blank field is the space. -/
theorem parseFrom_saved_unnamedPlaces :
    parseFrom "ages.json" ((declare (some "people")).withField "age" .numeric).toJson.text
        = .ok ((declare (some "people")).withField "age" .numeric) ∧
      parseFrom "tab.json" (declare (some "\t")).toJson.text
        = .error (.malformed "tab.json" .blankIndexName) ∧
      unnamedPlaces.WrittenAs unnamedPlacesJson ∧
      ∃ name, LeastBlank [" ", "age", "city", "\u3000"] name ∧
        parseFrom "people.json" unnamedPlacesJson.text
          = .error (.malformed "people.json" (.blankFieldName name)) := by
  have hages := parseFrom_saved ((declare (some "people")).withField "age" .numeric) "ages.json"
  have htab := parseFrom_saved (declare (some "\t")) "tab.json"
  have hplaces := (parseFrom_saved unnamedPlaces "people.json").2 _ writtenAs_unnamedPlaces
  refine ⟨(hages.2 _ hages.1).1.mpr ?_, (htab.2 _ htab.1).2.1 ?_, writtenAs_unnamedPlaces,
    hplaces.2.2 ?_ ?_⟩
  · decide
  · exact ⟨"\t", by decide, by decide⟩
  · decide
  · exact ⟨" ", by decide, by decide⟩

end Schema

end IndexQuery
