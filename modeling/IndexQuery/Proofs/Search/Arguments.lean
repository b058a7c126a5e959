/-
# Reading a search back from its arguments

The argument vector of a search has four parts that may be absent, and nothing in it is quoted: an index,
a query, a field may be any text, a keyword or a number too.  Three things tell the parts apart.  They
stand in one order, each begins with a keyword of its own, and each has a fixed length or says how long
it is.  So a keyword is looked for only where a part can begin, and never inside one.

`readSearch` reads a vector this way.  It accepts exactly the vectors that are written, each as the one
search that it was written from (`readSearch_eq_some_iff`).  Hence the vector of a plan determines the
plan, up to what is not visible in the text of the three numbers of a radius (`searchArgs_determine`).
-/
import IndexQuery.Proofs.Aggregate.Command

namespace IndexQuery

/-! ## 1. Searches -/

/-- A radius as a vector has it, with its numbers as they stand there. -/
structure CommandRadius where
  field : String
  longitude : String
  latitude : String
  radius : String
  unit : GeoUnit
  deriving DecidableEq

/-- A search as a vector has it. -/
structure SearchCommand where
  indexName : String
  queryText : String
  window : Option Window
  sortBy : Option SortKey
  returnFields : Option (List String)
  geo : Option CommandRadius
  deriving DecidableEq

def CommandRadius.args (r : CommandRadius) : List String :=
  ["GEOFILTER", r.field, r.longitude, r.latitude, r.radius, r.unit.name]

namespace SearchCommand

/-- The arguments from the radius on. -/
def fromRadius (c : SearchCommand) : List String :=
  optionalArgs CommandRadius.args c.geo

/-- The arguments from the fields to return on. -/
def fromReturn (c : SearchCommand) : List String :=
  optionalArgs returnArgs c.returnFields ++ c.fromRadius

/-- The arguments from the sort key on. -/
def fromSortKey (c : SearchCommand) : List String :=
  optionalArgs SortKey.searchArgs c.sortBy ++ c.fromReturn

/-- The arguments from the window on. -/
def fromWindow (c : SearchCommand) : List String :=
  optionalArgs Window.args c.window ++ c.fromSortKey

def args (c : SearchCommand) : List String :=
  c.indexName :: c.queryText :: c.fromWindow

end SearchCommand

/-- A radius in its written form. -/
def GeoRadius.written (r : GeoRadius) : CommandRadius where
  field := r.field
  longitude := r.longitude.plainText
  latitude := r.latitude.plainText
  radius := r.radius.plainText
  unit := r.unit

/-- The search of a plan. -/
def SearchPlan.command (p : SearchPlan) : SearchCommand where
  indexName := p.indexName
  queryText := p.queryText
  window := p.window
  sortBy := p.sortBy
  returnFields := p.returnFields
  geo := p.geo.map GeoRadius.written

/-- **The vector of a plan is the vector of its search.** -/
theorem SearchPlan.args_eq_command_args (p : SearchPlan) : p.args = p.command.args := by
  have hgeo : p.command.fromRadius = optionalArgs GeoRadius.args p.geo := by
    unfold SearchCommand.fromRadius command
    cases p.geo <;> rfl
  simp only [SearchPlan.args, SearchCommand.args, SearchCommand.fromWindow,
    SearchCommand.fromSortKey, SearchCommand.fromReturn, hgeo, List.append_assoc, List.cons_append,
    List.nil_append]
  rfl

/-! ## 2. Reading single arguments -/

/-- A number of 64 bits in its shortest decimal form. -/
def readUInt64 (s : String) : Option UInt64 :=
  (readNat s).bind fun n => if n < UInt64.size then some (UInt64.ofNat n) else none

theorem readUInt64_eq_some_iff {s : String} {x : UInt64} :
    readUInt64 s = some x ↔ s = Nat.repr x.toNat := by
  unfold readUInt64
  constructor
  · intro h
    obtain ⟨n, hn, h⟩ := Option.bind_eq_some_iff.mp h
    split at h
    · next hlt =>
      cases h
      rw [readNat_eq_some_iff.mp hn, UInt64.toNat_ofNat_of_lt' hlt]
    · cases h
  · rintro rfl
    simp [x.toNat_lt_size]

/-- A unit by the name that the engine has for it. -/
def readUnit (s : String) : Option GeoUnit :=
  [GeoUnit.meters, .kilometers, .miles, .feet].find? (·.name == s)

theorem readUnit_eq_some_iff {s : String} {unit : GeoUnit} :
    readUnit s = some unit ↔ s = unit.name := by
  constructor
  · intro h
    have hname : (unit.name == s) = true := List.find?_some (p := fun u : GeoUnit => u.name == s) h
    exact (eq_of_beq hname).symm
  · rintro rfl
    cases unit <;> rfl

/-! ## 3. Parts -/

def readWindow : List String → Option (Window × List String)
  | "LIMIT" :: offset :: count :: rest =>
    (readUInt64 offset).bind fun offset => (readUInt64 count).map fun count => (⟨offset, count⟩, rest)
  | _ => none

theorem readWindow_eq_some_iff {v rest : List String} {w : Window} :
    readWindow v = some (w, rest) ↔ v = w.args ++ rest := by
  constructor
  · intro h
    unfold readWindow at h
    split at h
    · obtain ⟨offset, hoffset, h⟩ := Option.bind_eq_some_iff.mp h
      obtain ⟨count, hcount, h⟩ := Option.map_eq_some_iff.mp h
      cases h
      rw [readUInt64_eq_some_iff.mp hoffset, readUInt64_eq_some_iff.mp hcount]
      rfl
    · cases h
  · rintro rfl
    have hoffset : readUInt64 (Nat.repr w.offset.toNat) = some w.offset :=
      readUInt64_eq_some_iff.mpr rfl
    have hcount : readUInt64 (Nat.repr w.count.toNat) = some w.count :=
      readUInt64_eq_some_iff.mpr rfl
    simp [Window.args, readWindow, hoffset, hcount]

def readSortKey : List String → Option (SortKey × List String)
  | "SORTBY" :: field :: name :: rest =>
    (readDirection name).map fun direction => (⟨field, direction⟩, rest)
  | _ => none

theorem readSortKey_eq_some_iff {v rest : List String} {k : SortKey} :
    readSortKey v = some (k, rest) ↔ v = k.searchArgs ++ rest := by
  constructor
  · intro h
    unfold readSortKey at h
    split at h
    · obtain ⟨direction, hdirection, h⟩ := Option.map_eq_some_iff.mp h
      cases h
      rw [readDirection_eq_some_iff.mp hdirection]
      rfl
    · cases h
  · rintro rfl
    have hdirection : readDirection k.direction.name = some k.direction :=
      readDirection_eq_some_iff.mpr rfl
    simp [SortKey.searchArgs, readSortKey, hdirection]

def readReturn : List String → Option (List String × List String)
  | "RETURN" :: v => readCounted v
  | _ => none

theorem readReturn_eq_some_iff {v rest fields : List String} :
    readReturn v = some (fields, rest) ↔ v = returnArgs fields ++ rest := by
  constructor
  · intro h
    unfold readReturn at h
    split at h
    · rw [readCounted_eq_some_iff.mp h]
      rfl
    · cases h
  · rintro rfl
    exact readCounted_eq_some_iff.mpr rfl

def readRadius : List String → Option (CommandRadius × List String)
  | "GEOFILTER" :: field :: longitude :: latitude :: radius :: name :: rest =>
    (readUnit name).map fun unit => ({ field, longitude, latitude, radius, unit }, rest)
  | _ => none

theorem readRadius_eq_some_iff {v rest : List String} {r : CommandRadius} :
    readRadius v = some (r, rest) ↔ v = r.args ++ rest := by
  constructor
  · intro h
    unfold readRadius at h
    split at h
    · obtain ⟨unit, hunit, h⟩ := Option.map_eq_some_iff.mp h
      cases h
      rw [readUnit_eq_some_iff.mp hunit]
      rfl
    · cases h
  · rintro rfl
    have hunit : readUnit r.unit.name = some r.unit := readUnit_eq_some_iff.mpr rfl
    simp [CommandRadius.args, readRadius, hunit]

/-! ## 4. Parts that may be absent -/

section Optional

variable {α : Type}

/-- A part, if its keyword comes next. -/
def readOptional (keyword : String) (read : List String → Option (α × List String))
    (v : List String) : Option (Option α × List String) :=
  if v.head? = some keyword then (read v).map (Prod.map some id) else some (none, v)

variable {keyword : String} {read : List String → Option (α × List String)}
  {write : α → List String}

/-- **A part is absent exactly if its keyword does not come next.** -/
theorem readOptional_eq_some_iff
    (hread : ∀ {v a rest}, read v = some (a, rest) ↔ v = write a ++ rest)
    (hkeyword : ∀ a rest, (write a ++ rest).head? = some keyword) {v rest : List String}
    {o : Option α} :
    readOptional keyword read v = some (o, rest) ↔
      v = optionalArgs write o ++ rest ∧ (o = none → rest.head? ≠ some keyword) := by
  unfold readOptional
  constructor
  · intro h
    split at h
    · obtain ⟨a, ha, rfl⟩ := map_value_eq_some h
      exact ⟨hread.mp ha, fun hnone => by cases hnone⟩
    · next hhead =>
      cases h
      exact ⟨rfl, fun _ => hhead⟩
  · rintro ⟨rfl, habsent⟩
    cases o with
    | none => exact if_neg (habsent rfl)
    | some a =>
      have ha : read (write a ++ rest) = some (a, rest) := hread.mpr rfl
      rw [optionalArgs, if_pos (hkeyword a rest), ha]
      rfl

/-- A part that may be absent does not begin with a keyword of another. -/
theorem head?_optionalArgs_ne {other : String} (hne : keyword ≠ other)
    (hkeyword : ∀ a rest, (write a ++ rest).head? = some keyword) (o : Option α)
    {rest : List String} (hrest : rest.head? ≠ some other) :
    (optionalArgs write o ++ rest).head? ≠ some other := by
  cases o with
  | none => exact hrest
  | some a =>
    rw [optionalArgs, hkeyword a rest]
    exact fun h => hne (Option.some.inj h)

end Optional

/-! ## 5. Whole vectors -/

/-- **Reading a vector part by part.** -/
def readSearch : List String → Option SearchCommand
  | indexName :: queryText :: v =>
    (readOptional "LIMIT" readWindow v).bind fun (window, v) =>
      (readOptional "SORTBY" readSortKey v).bind fun (sortBy, v) =>
        (readOptional "RETURN" readReturn v).bind fun (returnFields, v) =>
          (readOptional "GEOFILTER" readRadius v).bind fun (geo, v) =>
            if v = [] then some { indexName, queryText, window, sortBy, returnFields, geo } else none
  | _ => none

namespace SearchCommand

variable {keyword : String}

/-! Where a part can begin, the keyword of an earlier one does not stand. -/

theorem head?_fromRadius_ne (c : SearchCommand) (hradius : "GEOFILTER" ≠ keyword) :
    c.fromRadius.head? ≠ some keyword := by
  unfold fromRadius
  cases c.geo with
  | none => simp [optionalArgs]
  | some r => exact fun h => hradius (Option.some.inj h)

theorem head?_fromReturn_ne (c : SearchCommand) (hreturn : "RETURN" ≠ keyword)
    (hradius : "GEOFILTER" ≠ keyword) : c.fromReturn.head? ≠ some keyword :=
  head?_optionalArgs_ne hreturn (fun _ _ => rfl) c.returnFields (c.head?_fromRadius_ne hradius)

theorem head?_fromSortKey_ne (c : SearchCommand) (hsort : "SORTBY" ≠ keyword)
    (hreturn : "RETURN" ≠ keyword) (hradius : "GEOFILTER" ≠ keyword) :
    c.fromSortKey.head? ≠ some keyword :=
  head?_optionalArgs_ne hsort (fun _ _ => rfl) c.sortBy (c.head?_fromReturn_ne hreturn hradius)

end SearchCommand

theorem readSearch_sound {v : List String} {c : SearchCommand} (h : readSearch v = some c) :
    v = c.args := by
  unfold readSearch at h
  split at h
  · obtain ⟨⟨window, v₁⟩, hwindow, h⟩ := Option.bind_eq_some_iff.mp h
    obtain ⟨⟨sortBy, v₂⟩, hsort, h⟩ := Option.bind_eq_some_iff.mp h
    obtain ⟨⟨returnFields, v₃⟩, hreturn, h⟩ := Option.bind_eq_some_iff.mp h
    obtain ⟨⟨geo, v₄⟩, hradius, h⟩ := Option.bind_eq_some_iff.mp h
    simp only at h
    split at h
    · next hend =>
      cases h
      rw [((readOptional_eq_some_iff readWindow_eq_some_iff fun _ _ => rfl).mp hwindow).1,
        ((readOptional_eq_some_iff readSortKey_eq_some_iff fun _ _ => rfl).mp hsort).1,
        ((readOptional_eq_some_iff readReturn_eq_some_iff fun _ _ => rfl).mp hreturn).1,
        ((readOptional_eq_some_iff readRadius_eq_some_iff fun _ _ => rfl).mp hradius).1, hend,
        List.append_nil]
      rfl
    · cases h
  · cases h

theorem readSearch_complete (c : SearchCommand) : readSearch c.args = some c := by
  have hwindow : readOptional "LIMIT" readWindow c.fromWindow = some (c.window, c.fromSortKey) :=
    (readOptional_eq_some_iff readWindow_eq_some_iff fun _ _ => rfl).mpr
      ⟨rfl, fun _ => c.head?_fromSortKey_ne (by decide) (by decide) (by decide)⟩
  have hsort : readOptional "SORTBY" readSortKey c.fromSortKey = some (c.sortBy, c.fromReturn) :=
    (readOptional_eq_some_iff readSortKey_eq_some_iff fun _ _ => rfl).mpr
      ⟨rfl, fun _ => c.head?_fromReturn_ne (by decide) (by decide)⟩
  have hreturn : readOptional "RETURN" readReturn c.fromReturn
      = some (c.returnFields, c.fromRadius) :=
    (readOptional_eq_some_iff readReturn_eq_some_iff fun _ _ => rfl).mpr
      ⟨rfl, fun _ => c.head?_fromRadius_ne (by decide)⟩
  have hradius : readOptional "GEOFILTER" readRadius c.fromRadius = some (c.geo, []) :=
    (readOptional_eq_some_iff readRadius_eq_some_iff fun _ _ => rfl).mpr
      ⟨(List.append_nil _).symm, fun _ => by simp⟩
  simp only [SearchCommand.args, readSearch, hwindow, hsort, hreturn, hradius, Option.bind_some,
    if_true]

/-- **Reading accepts exactly what is written**, as the search that it was written from. -/
theorem readSearch_eq_some_iff {v : List String} {c : SearchCommand} :
    readSearch v = some c ↔ v = c.args := by
  constructor
  · exact readSearch_sound
  · rintro rfl
    exact readSearch_complete c

-- keywords and numbers in every place, and a list of no fields
example : readSearch ["LIMIT", "SORTBY", "SORTBY", "LIMIT", "ASC", "RETURN", "0", "GEOFILTER", "RETURN",
      "1", "2", "3", "km"]
    = some ⟨"LIMIT", "SORTBY", none, some ⟨"LIMIT", .asc⟩, some [],
        some ⟨"RETURN", "1", "2", "3", .kilometers⟩⟩ := by
  decide

theorem SearchPlan.readSearch_args (p : SearchPlan) : readSearch p.args = some p.command := by
  rw [p.args_eq_command_args]
  exact readSearch_eq_some_iff.mpr rfl

theorem SearchPlan.command_eq_iff {p q : SearchPlan} :
    p.command = q.command ↔
      p.indexName = q.indexName ∧ p.queryText = q.queryText ∧ p.window = q.window ∧
      p.sortBy = q.sortBy ∧ p.returnFields = q.returnFields ∧
      p.geo.map GeoRadius.written = q.geo.map GeoRadius.written := by
  rw [command, command, SearchCommand.mk.injEq]

/-- **The arguments of a search determine it.**  `readSearch` accepts exactly the vectors of searches,
and reading the vector of a plan gives the plan back, with the numbers of a radius as their text.  So two
plans have one vector exactly if they agree in every part, where an absent part agrees with an absent one
only. -/
theorem searchArgs_determine :
    (∀ v c, readSearch v = some c ↔ v = c.args) ∧
    (∀ p : SearchPlan, readSearch p.args = some p.command) ∧
    ∀ p q : SearchPlan, p.args = q.args ↔
      p.indexName = q.indexName ∧ p.queryText = q.queryText ∧ p.window = q.window ∧
      p.sortBy = q.sortBy ∧ p.returnFields = q.returnFields ∧
      p.geo.map GeoRadius.written = q.geo.map GeoRadius.written := by
  refine ⟨fun v c => readSearch_eq_some_iff, SearchPlan.readSearch_args, fun p q => ?_⟩
  rw [← SearchPlan.command_eq_iff]
  constructor
  · intro h
    have hsame : some p.command = some q.command := by
      rw [← p.readSearch_args, ← q.readSearch_args, h]
    exact Option.some.inj hsame
  · intro h
    rw [p.args_eq_command_args, q.args_eq_command_args, h]

end IndexQuery
