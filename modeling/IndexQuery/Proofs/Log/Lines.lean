/-
# Log lines are faithful

A line of the log is one JSON object.  Whatever the event and the fields hold, nothing in the object is a
control character (`LogEntry.isControl_of_mem_text`), so the line break at the end is the only one; and the
object is read back member by member (`LogEntry.readsAs_text`), since each escape of the log is one of the
JSON grammar's.

The fields stand in the order of their keys, and fields of one key in the order in which they were given
(`FieldsInOrder`).  Where no key comes twice, the order in which they were given does not show
(`LogEntry.sortedFields_eq_of_perm`).
-/
import IndexQuery.Log.Entry
import IndexQuery.Proofs.Json.RoundTrip
import IndexQuery.Proofs.Reader
import IndexQuery.Proofs.Text.ByteOrder
import Mathlib.Data.List.Nodup

namespace IndexQuery

/-- **Fields in the order of a line**: those that were given, by the bytes of their keys, and the fields of
one key in the order in which they were given. -/
structure FieldsInOrder (given fields : LogFields) : Prop where
  perm : fields.Perm given
  byKey : fields.Pairwise fun a b => utf8Bytes a.1 ≤ utf8Bytes b.1
  stable : ∀ key, fields.filter (·.1 = key) = given.filter (·.1 = key)

namespace LogEntry

/-! ## 1. The order of the fields -/

theorem decide_key_trans (a b c : String × String) (hab : decide (a.1 ≤ b.1) = true)
    (hbc : decide (b.1 ≤ c.1) = true) : decide (a.1 ≤ c.1) = true := by
  rw [decide_eq_true_iff] at hab hbc ⊢
  exact String.le_trans hab hbc

theorem decide_key_total (a b : String × String) :
    (decide (a.1 ≤ b.1) || decide (b.1 ≤ a.1)) = true := by
  simpa using String.le_total a.1 b.1

theorem pairwise_sortedFields (fields : LogFields) :
    (sortedFields fields).Pairwise fun a b => decide (a.1 ≤ b.1) = true :=
  List.pairwise_mergeSort decide_key_trans decide_key_total fields

theorem sortedFields_perm (fields : LogFields) : (sortedFields fields).Perm fields :=
  List.mergeSort_perm _ _

/-- Fields of one key are in order already, so sorting does not move them past each other. -/
theorem filter_sortedFields (fields : LogFields) (key : String) :
    (sortedFields fields).filter (·.1 = key) = fields.filter (·.1 = key) := by
  have hkey : (fields.filter (·.1 = key)).Pairwise fun a b => decide (a.1 ≤ b.1) = true := by
    refine List.pairwise_of_forall_mem_list ?_
    intro a ha b hb
    simp only [List.mem_filter, decide_eq_true_eq] at ha hb ⊢
    rw [ha.2, hb.2]
  have hsub := List.sublist_mergeSort decide_key_trans decide_key_total hkey List.filter_sublist
  have hfilter := hsub.filter (·.1 = key)
  rw [List.filter_filter] at hfilter
  simp only [Bool.and_self] at hfilter
  exact (hfilter.eq_of_length ((sortedFields_perm fields).filter _).length_eq.symm).symm

theorem fieldsInOrder_sortedFields (fields : LogFields) :
    FieldsInOrder fields (sortedFields fields) where
  perm := sortedFields_perm fields
  byKey := (pairwise_sortedFields fields).imp fun h =>
    (le_iff_utf8Bytes_le _ _).mp (of_decide_eq_true h)
  stable := filter_sortedFields fields

/-- **Fields with distinct keys are sorted into one order**, whatever order they were given in. -/
theorem sortedFields_eq_of_perm {fields given : LogFields} (hperm : fields.Perm given)
    (hkeys : (given.map (·.1)).Nodup) : sortedFields fields = sortedFields given := by
  have hboth : (sortedFields fields).Perm (sortedFields given) :=
    (sortedFields_perm fields).trans (hperm.trans (sortedFields_perm given).symm)
  refine hboth.eq_of_pairwise ?_ (pairwise_sortedFields fields) (pairwise_sortedFields given)
  intro a b ha hb hab hba
  have hgiven : a ∈ given ∧ b ∈ given :=
    ⟨hperm.subset ((sortedFields_perm fields).subset ha), (sortedFields_perm given).subset hb⟩
  have hkey : a.1 = b.1 := String.le_antisymm (of_decide_eq_true hab) (of_decide_eq_true hba)
  exact List.inj_on_of_nodup_map hkeys hgiven.1 hgiven.2 hkey

/-! ## 2. The object of a line -/

theorem charText_escapeChar (c : Char) : Document.CharText c (escapeChar c) := by
  unfold escapeChar
  refine Document.charText_ite rfl fun hquote => Document.charText_ite rfl fun hslash =>
    Document.charText_ite rfl fun _ => Document.charText_ite rfl fun _ =>
    Document.charText_ite rfl fun _ => ?_
  simp only [isControl, Bool.or_eq_true, Bool.and_eq_true, decide_eq_true_eq]
  split_ifs with hcontrol
  · exact charText_controlEscape (by omega)
  · exact .plain (by omega) hquote hslash

theorem readsAsString_quote (s : String) : Document.ReadsAsString (quote s).toList s := by
  rw [quote, String.toList_ofList]
  exact Document.readsAsString_quoted charText_escapeChar s

/-- The object that a line of these members holds. -/
def memberDocument (members : LogFields) : Document :=
  .obj (members.map fun m => (some m.1, .str (some m.2)))

/-- **The object of a line is read as the members of the entry, in their order.** -/
theorem readsAs_text (e : LogEntry) : Document.ReadsAs e.text.toList (memberDocument e.members) := by
  have hmembers : List.Forall₂ Document.ReadsAsMember
      (e.members.map fun m => (quote m.1).toList ++ ':' :: (quote m.2).toList)
      (e.members.map fun m => (some m.1, .str (some m.2))) := by
    rw [List.forall₂_map_left_iff, List.forall₂_map_right_iff, List.forall₂_same]
    intro m _
    exact ⟨m.1, _, _, rfl, rfl, readsAsString_quote m.1, (readsAsString_quote m.2).readsAs⟩
  have hobject := Document.ReadsAs.object hmembers
  simpa [text, memberDocument, Function.comp_def] using hobject

/-! ## 3. The line break -/

theorem isControl_of_mem_controlEscape {c d : Char} (hc : c.toNat < 0x100) (h : d ∈ controlEscape c) :
    isControl d = false := by
  have hdigit : ∀ n < 16, isControl (hexDigit n) = false := by decide
  simp only [controlEscape, List.mem_cons, List.not_mem_nil, or_false] at h
  rcases h with rfl | rfl | rfl | rfl | rfl | rfl
  · rfl
  · rfl
  · rfl
  · rfl
  · exact hdigit _ (by omega)
  · exact hdigit _ (by omega)

/-- No character is written with a control character. -/
theorem isControl_of_mem_escapeChar {c d : Char} (h : d ∈ escapeChar c) : isControl d = false := by
  unfold escapeChar at h
  split_ifs at h with hquote hslash hline hreturn htab hcontrol
  iterate 5
    · simp only [List.mem_cons, List.not_mem_nil, or_false] at h
      rcases h with rfl | rfl <;> rfl
  · simp only [isControl, Bool.or_eq_true, Bool.and_eq_true, decide_eq_true_eq] at hcontrol
    exact isControl_of_mem_controlEscape (by omega) h
  · rw [List.mem_singleton.mp h]
    exact Bool.eq_false_iff.mpr hcontrol

theorem isControl_of_mem_quote {s : String} {d : Char} (h : d ∈ (quote s).toList) :
    isControl d = false := by
  rw [quote, String.toList_ofList, List.cons_append, List.mem_cons, List.mem_append,
    List.mem_flatMap, List.mem_singleton] at h
  rcases h with rfl | ⟨c, -, hd⟩ | rfl
  · rfl
  · exact isControl_of_mem_escapeChar hd
  · rfl

/-- **The object of a line holds no control character.** -/
theorem isControl_of_mem_text {e : LogEntry} {d : Char} (h : d ∈ e.text.toList) :
    isControl d = false := by
  have htext : e.text.toList = '\x7b' :: [','].intercalate
      (e.members.map fun m => (quote m.1).toList ++ ':' :: (quote m.2).toList) ++ ['\x7d'] := by
    simp [text, Function.comp_def]
  rw [htext, List.cons_append, List.mem_cons, List.mem_append, List.mem_singleton] at h
  rcases h with rfl | h | rfl
  · rfl
  · rcases mem_intercalate h with h | ⟨u, hu, hd⟩
    · rw [List.mem_singleton.mp h]
      rfl
    · obtain ⟨m, -, rfl⟩ := List.mem_map.mp hu
      rcases List.mem_append.mp hd with hd | hd
      · exact isControl_of_mem_quote hd
      · rcases List.mem_cons.mp hd with rfl | hd
        · rfl
        · exact isControl_of_mem_quote hd
  · rfl

end LogEntry

/-! ## 4. Lines -/

/-- **Log lines are faithful single lines of JSON.**  A line ends with its only line break.  What stands
before it is an object of the event, the name of the severity, and the given fields with their exact keys
and values, in the order of the keys' bytes and else as given.  And if no key comes twice, the line is the
same in whatever order the fields were given. -/
theorem line_faithful (e : LogEntry) :
    (∃ body fields, e.line = body ++ "\n" ∧ '\n' ∉ body.toList ∧ FieldsInOrder e.fields fields ∧
      Document.parse? body = some (.obj
        ((("event", e.event) :: ("severity", e.severity.name) :: fields).map fun m =>
          (some m.1, .str (some m.2))))) ∧
    ∀ fields : LogFields, (e.fields.map (·.1)).Nodup → fields.Perm e.fields →
      LogEntry.line { e with fields } = e.line := by
  refine ⟨⟨e.text, LogEntry.sortedFields e.fields, rfl, ?_, ?_, ?_⟩, ?_⟩
  · intro hbreak
    cases LogEntry.isControl_of_mem_text hbreak
  · exact LogEntry.fieldsInOrder_sortedFields e.fields
  · exact e.readsAs_text.parse?
  · intro fields hkeys hperm
    rw [LogEntry.line, LogEntry.text, LogEntry.members, LogEntry.sortedFields_eq_of_perm hperm hkeys]
    rfl

/-- An entry whose texts hold quotes, backslashes, what looks like an escape, and control characters of
both ranges. -/
def awkwardEntry : LogEntry where
  severity := .warn
  event := "first\nsecond"
  fields := [("stage", "a \"b\" \\n"), ("\u00fc", "\x7f\u0085"), ("code", "\\u0041"), ("", "\t")]

theorem line_faithful_awkwardEntry :
    (awkwardEntry.fields.map (·.1)).Nodup ∧ awkwardEntry.fields.reverse.Perm awkwardEntry.fields ∧
    LogEntry.line ⟨.warn, "first\nsecond", awkwardEntry.fields.reverse⟩ = awkwardEntry.line := by
  have hkeys : (awkwardEntry.fields.map (·.1)).Nodup := by decide
  have hperm : awkwardEntry.fields.reverse.Perm awkwardEntry.fields := List.reverse_perm _
  exact ⟨hkeys, hperm, (line_faithful awkwardEntry).2 _ hkeys hperm⟩

end IndexQuery
