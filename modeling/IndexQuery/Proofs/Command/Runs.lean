/-
# A command in a directory

A command is given two paths and the bytes of a request, and leaves an exit code and two texts behind.
This module says what that comes to in a directory that is known (`Invocation.run_directory`).

* **What it reads.**  A path may go up, stay where it is and come down again, but where it ends at a file,
  that file is an entry of the directory (`Directory.exists_entry_of_state`).  So the schema of a command
  is always the text of an entry, and its configuration is one too unless the default one holds.
* **What it reports.**  An entry of the journal holds no control character, so it is one line among the
  lines of the standard error, whatever was logged (`Journal.linesAfter_text`).  The lines of a failure come
  after all of them.
-/
import IndexQuery.Command.Run
import IndexQuery.File.Directory
import IndexQuery.Proofs.Log.Lines
import IndexQuery.Text.Lines

namespace IndexQuery

/-! ## 1. Files

The invariant of a walk along a path: a file that it has come to is an entry.  One name of the path keeps it,
hence all names do. -/

namespace Directory

/-- The place is known to the directory: if it is a file, it is that of an entry. -/
def Knows (d : Directory) : Place → Prop
  | .file content => ∃ path, (path, DirectoryEntry.file content) ∈ d.entries
  | _ => True

theorem knows_parent (d : Directory) (place : Place) : d.Knows place.parent := by
  unfold Place.parent
  split <;> trivial

theorem knows_of_enter {d : Directory} {names : List String} {name : String} {place : Place}
    (h : d.enter names name = .ok place) : d.Knows place := by
  unfold enter at h
  split at h
  · next content hentry =>
    cases h
    unfold entry? at hentry
    split at hentry
    · next found hlookup =>
      cases hentry
      obtain ⟨before, after, hentries, -⟩ := List.lookup_eq_some_iff.mp hlookup
      exact ⟨"/".intercalate (names ++ [name]), by simp [hentries]⟩
    · -- a directory on the way to an entry is no file
      split at hentry <;> cases hentry
  · cases h
    trivial
  · cases h

/-- One more name of a path. -/
theorem knows_of_follow {d : Directory} {place place' : Place} {name : String}
    (h : d.follow place name = .ok place') (hplace : d.Knows place) : d.Knows place' := by
  unfold follow at h
  split at h
  · cases h
  · split_ifs at h
    · cases h
      exact hplace
    · cases h
      exact d.knows_parent place
    · split at h
      · exact knows_of_enter h
      · cases h

/-- All names of a path, by induction on them. -/
theorem knows_of_foldlM {d : Directory} {names : List String} {place place' : Place}
    (h : names.foldlM d.follow place = .ok place') (hplace : d.Knows place) : d.Knows place' := by
  induction names generalizing place with
  | nil =>
    cases h
    exact hplace
  | cons name names ih =>
    rw [List.foldlM_cons] at h
    cases hnext : d.follow place name with
    | error fault =>
      rw [hnext] at h
      cases h
    | ok next =>
      rw [hnext] at h
      exact ih h (knows_of_follow hnext hplace)

/-- **A file that is read is an entry of the directory.** -/
theorem exists_entry_of_state {d : Directory} {path : String} {content : ByteArray}
    (h : d.state path = .bytes content) : ∃ name, (name, DirectoryEntry.file content) ∈ d.entries := by
  unfold state at h
  split at h
  · cases h
  · next found hresolve =>
    cases h
    unfold resolve at hresolve
    split_ifs at hresolve
    · exact knows_of_foldlM hresolve trivial
    · exact knows_of_foldlM hresolve trivial
  · cases h

/-- A text that a file of the directory holds. -/
def Holds (d : Directory) (text : String) : Prop :=
  ∃ name content, (name, DirectoryEntry.file content) ∈ d.entries ∧ utf8Text content = .ok text

theorem holds_of_text {d : Directory} {path text : String} (h : (d.state path).text = .ok text) :
    d.Holds text := by
  cases hstate : d.state path with
  | absent fault | unreadable fault =>
    rw [hstate] at h
    cases h
  | bytes content =>
    rw [hstate] at h
    obtain ⟨name, hentry⟩ := exists_entry_of_state hstate
    exact ⟨name, content, hentry, h⟩

end Directory

/-! ## 2. The workspace -/

/-- **A workspace of a directory**: its schema is a file, and so is its configuration if it is not the
default one. -/
structure Workspace.IsOf (d : Directory) (w : Workspace) : Prop where
  schema : ∃ text, d.Holds text ∧ Schema.parse text = .ok w.schema
  config : w.config = {} ∨ ∃ text, d.Holds text ∧ Config.parse text = .ok w.config

theorem Except.mapError_eq_ok {α ε ε' : Type} {x : Except ε α} {f : ε → ε'} {a : α} :
    x.mapError f = .ok a ↔ x = .ok a := by
  cases x <;> simp [Except.mapError]

theorem Config.of_load {d : Directory} {path : String} {c : Config}
    (h : Config.load (d.state path) = .ok c) :
    c = {} ∨ ∃ text, d.Holds text ∧ Config.parse text = .ok c := by
  unfold Config.load at h
  split at h
  · cases h
    exact .inl rfl
  · split at h
    · cases h
    · next text htext => exact .inr ⟨text, Directory.holds_of_text htext, h⟩

theorem Schema.of_load {d : Directory} {path : String} {s : Schema}
    (h : Schema.load path (d.state path) = .ok s) :
    ∃ text, d.Holds text ∧ Schema.parse text = .ok s := by
  unfold Schema.load at h
  split at h
  · cases h
  · next text htext =>
    exact ⟨text, Directory.holds_of_text htext, Except.mapError_eq_ok.mp h⟩

theorem Workspace.isOf_of_load {d : Directory} {i : Invocation} {w : Workspace}
    (h : Workspace.load d.state i = .ok w) : w.IsOf d := by
  unfold Workspace.load at h
  cases hconfig : (Config.load (d.state i.configPath)).mapError CommandError.config with
  | error e =>
    rw [hconfig] at h
    cases h
  | ok config =>
    cases hschema : (Schema.load i.schemaPath (d.state i.schemaPath)).mapError CommandError.schema with
    | error e =>
      rw [hconfig, hschema] at h
      cases h
    | ok schema =>
      rw [hconfig, hschema] at h
      cases h
      exact ⟨Schema.of_load (Except.mapError_eq_ok.mp hschema),
        Config.of_load (Except.mapError_eq_ok.mp hconfig)⟩

/-! ## 3. Lines -/

/-- A line without a carriage return at its end, and the lines behind it. -/
theorem linesAfter_line {s : List Char} (hbreak : '\n' ∉ s) (hreturn : '\r' ∉ s) (rest : List Char) :
    linesAfter [] (s ++ '\n' :: rest) = String.ofList s :: linesAfter [] rest := by
  have hkeep : dropReturn s.reverse = s.reverse := by
    unfold dropReturn
    split
    · next before heq =>
      have hmem : '\r' ∈ s.reverse := by simp [heq]
      exact absurd (List.mem_reverse.mp hmem) hreturn
    · rfl
  rw [linesAfter_append hbreak, List.append_nil, linesAfter, if_pos rfl, hkeep, List.reverse_reverse]

/-- **An entry is one line.** -/
theorem LogEntry.linesAfter_text (e : LogEntry) (rest : List Char) :
    linesAfter [] (e.line.toList ++ rest) = e.text :: linesAfter [] rest := by
  have hcontrol : ∀ c, LogEntry.isControl c = true → c ∉ e.text.toList := by
    intro c hc hmem
    rw [LogEntry.isControl_of_mem_text hmem] at hc
    cases hc
  have hline : e.line.toList ++ rest = e.text.toList ++ '\n' :: rest := by
    simp [LogEntry.line]
  rw [hline, linesAfter_line (hcontrol _ rfl) (hcontrol _ rfl), String.ofList_toList]

theorem intercalate_nil_eq_flatten : ∀ us : List (List Char), [].intercalate us = us.flatten
  | [] => rfl
  | [u] => by simp
  | u :: v :: us => by
    rw [List.intercalate_cons_cons, List.append_nil, intercalate_nil_eq_flatten (v :: us)]
    rfl

/-- **The text of a journal is its lines**, by induction on the entries. -/
theorem Journal.linesAfter_text (j : Journal) (rest : List Char) :
    linesAfter [] (j.text.toList ++ rest) = j.lines ++ linesAfter [] rest := by
  have htext : j.text.toList = (j.entries.map fun e => e.line.toList).flatten := by
    simp [Journal.text, Function.comp_def, intercalate_nil_eq_flatten]
  rw [htext, Journal.lines]
  generalize j.entries = entries
  induction entries with
  | nil => rfl
  | cons e entries ih =>
    rw [List.map_cons, List.flatten_cons, List.append_assoc, LogEntry.linesAfter_text, ih]
    rfl

/-- The lines of the standard error: one for each entry of the journal, and then those of the failure. -/
theorem Outcome.textLines_stderr (written : String) (error : Option CommandError) (s : Session) :
    textLines (Outcome.ofSession written error s).stderr
      = s.journal.lines ++ error.elim [] fun e => textLines (e.display ++ "\n") := by
  cases error with
  | none => simpa [Outcome.ofSession, textLines, linesAfter] using s.journal.linesAfter_text []
  | some e =>
    simpa [Outcome.ofSession, textLines] using s.journal.linesAfter_text (e.display ++ "\n").toList

/-! ## 4. Runs -/

/-- **What a command leaves in a directory.**  It fails before it reads its request, and then no session is
begun; or it has a workspace of the directory, and its standard error is the journal of its session, one line
of JSON for each entry and the counters last, followed by the failure if there is one. -/
theorem Invocation.run_directory (i : Invocation) (d : Directory) (input : ByteArray) :
    (∃ e, Workspace.load d.state i = .error e ∧ i.run d.state input = .failed e) ∨
    ∃ w written error s, Workspace.load d.state i = .ok w ∧ w.IsOf d ∧
      i.command.runOn w input (.atThreshold w.config.severity) = ((written, error), s) ∧
      (i.run d.state input).stdout = written ∧
      ((i.run d.state input).exitCode = 0 ↔ error = none) ∧
      ∃ journal, journal = s.journal.log ⟨.info, "CLI_COMPILE_METRICS", s.counters.fields⟩ ∧
        (∀ line ∈ journal.lines, ∃ members, Document.parse? line = some (.obj members)) ∧
        textLines (i.run d.state input).stderr
          = journal.lines ++ error.elim [] fun e => textLines (e.display ++ "\n") := by
  cases hload : Workspace.load d.state i with
  | error e => exact .inl ⟨e, rfl, by rw [Invocation.run, hload]⟩
  | ok w =>
    obtain ⟨⟨⟨written, error⟩, s⟩, hrun⟩ :
        ∃ r, i.command.runOn w input (.atThreshold w.config.severity) = r := ⟨_, rfl⟩
    have houtcome : i.run d.state input = .ofSession written error
        (s.log ⟨.info, "CLI_COMPILE_METRICS", s.counters.fields⟩) := by
      rw [Invocation.run, hload]
      simp only [Workspace.answer, hrun]
    rw [houtcome]
    refine .inr ⟨w, written, error, s, rfl, Workspace.isOf_of_load hload, hrun, ?_, ?_, _, rfl, ?_,
      Outcome.textLines_stderr _ _ _⟩
    · cases error <;> rfl
    · cases error <;> simp [Outcome.ofSession]
    · intro line hline
      obtain ⟨entry, -, rfl⟩ := List.mem_map.mp hline
      exact ⟨_, entry.readsAs_text.parse?⟩

end IndexQuery
