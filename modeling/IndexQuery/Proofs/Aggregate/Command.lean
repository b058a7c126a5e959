/-
# Reading an aggregation back from its arguments

The argument vector of an aggregation is flat text, and nothing in it is quoted: a field, a name or
an expression may be any text, one of the keywords too.  What tells the parts apart are the counts.
After `GROUPBY` and in each `REDUCE` a number says how many arguments belong to it, and everything
else has a fixed length.

What belongs to a reduction is read in turn: a field, a field with a number, or a field with the key
that orders it, which the count tells apart (`readOperands`).  The number is read as a number and not as
a text.  So a command holds all that a reduction of a plan does, but for one thing: a first value without
an order and the same function of a field alone are written alike (`ReductionArgs.operands`).

`readCommand` reads a vector this way.  The main result is that it accepts exactly the vectors that
are written, each as the one command that it was written from (`readCommand_eq_some_iff`).  The
vector of a plan is one of them (`AggregatePlan.args_eq_command_args`), so it can be read as a whole
whatever its texts are.
-/
import IndexQuery.Plan.Aggregate
import IndexQuery.Proofs.Number.Reading
import IndexQuery.Proofs.Reader

namespace IndexQuery

/-! ## 1. Commands -/

/-- What a reduction works on, as a vector has it: nothing, a field, a field with a number, or a field
in the order of a key. -/
inductive CommandOperands where
  | none
  | field (name : String)
  | parameter (name : String) (value : Number)
  | ordered (name : String) (key : SortKey)
  deriving DecidableEq

/-- A reduction as a vector has it. -/
structure CommandReduction where
  function : ReduceFunction
  operands : CommandOperands
  label : String
  deriving DecidableEq

/-- A clause as a vector has it. -/
inductive CommandClause where
  | group (fields : List String) (reductions : List CommandReduction)
  | sort (key : SortKey)
  | apply (expr label : String)
  | filter (expr : String)
  deriving DecidableEq

/-- An aggregation as a vector has it. -/
structure AggregateCommand where
  indexName : String
  queryText : String
  clauses : List CommandClause
  limit : Option (Nat × Nat)
  deriving DecidableEq

def CommandOperands.args : CommandOperands → List String
  | none => []
  | field name => ["@" ++ name]
  | parameter name value => ["@" ++ name, value.text]
  | ordered name key => ["@" ++ name, "BY", "@" ++ key.field, key.direction.name]

def CommandReduction.args (r : CommandReduction) : List String :=
  "REDUCE" :: r.function.name :: Nat.repr r.operands.args.length ::
    (r.operands.args ++ ["AS", r.label])

def CommandClause.args : CommandClause → List String
  | group fields reductions =>
    "GROUPBY" :: Nat.repr fields.length ::
      (fields.map ("@" ++ ·) ++ reductions.flatMap CommandReduction.args)
  | sort key => ["SORTBY", "2", "@" ++ key.field, key.direction.name]
  | apply expr label => ["APPLY", expr, "AS", label]
  | filter expr => ["FILTER", expr]

/-- The last arguments, if there is a limit. -/
def limitArgs : Option (Nat × Nat) → List String
  | none => []
  | some (offset, count) => ["LIMIT", Nat.repr offset, Nat.repr count]

def AggregateCommand.args (c : AggregateCommand) : List String :=
  c.indexName :: c.queryText :: (c.clauses.flatMap CommandClause.args ++ limitArgs c.limit)

/-! ## 2. The command of a plan -/

/-- What a reduction works on in its written form. -/
def ReductionArgs.operands : ReductionArgs → CommandOperands
  | none => .none
  | field name => .field name
  | parameter name value => .parameter name value
  | first name .none => .field name
  | first name (some key) => .ordered name key

/-- A reduction in its written form. -/
def Reduction.written (r : Reduction) : CommandReduction :=
  ⟨r.function, r.args.operands, r.label⟩

/-- A clause in its written form. -/
def PipelineClause.written : PipelineClause → CommandClause
  | group fields reductions => .group fields (reductions.map Reduction.written)
  | sort key => .sort key
  | apply expr label => .apply expr label
  | filter expr => .filter expr

/-- The command of a plan. -/
def AggregatePlan.command (p : AggregatePlan) : AggregateCommand where
  indexName := p.indexName
  queryText := p.queryText.getD "*"
  clauses := p.clauses.map PipelineClause.written
  limit := p.window.map fun w => (w.offset.toNat, w.count.toNat)

/-- **Nothing that a reduction works on is left out.** -/
theorem ReductionArgs.args_eq_operands_args (a : ReductionArgs) : a.args = a.operands.args := by
  cases a with
  | none => rfl
  | field name => rfl
  | parameter name value => rfl
  | first name order =>
    cases order with
    | none => rfl
    | some key => rfl

theorem Reduction.clauseArgs_eq_written_args (r : Reduction) : r.clauseArgs = r.written.args := by
  rw [Reduction.clauseArgs, ReductionArgs.args_eq_operands_args]
  rfl

theorem PipelineClause.args_eq_written_args (c : PipelineClause) : c.args = c.written.args := by
  cases c with
  | group fields reductions =>
    have hreductions : Reduction.clauseArgs = fun r => r.written.args :=
      funext Reduction.clauseArgs_eq_written_args
    simp only [PipelineClause.args, written, CommandClause.args, List.flatMap_map, List.cons_append,
      hreductions]
  | sort key => rfl
  | apply expr label => rfl
  | filter expr => rfl

/-- **The vector of a plan is the vector of its command.** -/
theorem AggregatePlan.args_eq_command_args (p : AggregatePlan) : p.args = p.command.args := by
  have hclauses : PipelineClause.args = fun c => c.written.args :=
    funext PipelineClause.args_eq_written_args
  have hlimit : optionalArgs Window.args p.window = limitArgs p.command.limit := by
    cases h : p.window <;> simp [command, h, optionalArgs, limitArgs, Window.args]
  rw [AggregatePlan.args, AggregateCommand.args, hlimit, hclauses]
  simp [command, List.flatMap_map]

/-! ## 3. Reading single arguments

A reader accepts a text only in the form in which its value is written, so that a value and its argument
determine each other. -/

/-- A number in its shortest decimal form. -/
def readNat (s : String) : Option Nat :=
  if Nat.repr (Nat.ofDigitChars 10 s.toList 0) = s then some (Nat.ofDigitChars 10 s.toList 0)
  else none

theorem readNat_eq_some_iff {s : String} {n : Nat} : readNat s = some n ↔ s = Nat.repr n := by
  constructor
  · intro h
    unfold readNat at h
    split at h
    · next hrepr =>
      cases h
      exact hrepr.symm
    · cases h
  · rintro rfl
    simp [readNat]

@[simp] theorem readNat_repr (n : Nat) : readNat (Nat.repr n) = some n :=
  readNat_eq_some_iff.mpr rfl

/-- A field, which is marked by an at sign. -/
def readField (s : String) : Option String :=
  match s.toList with
  | '@' :: cs => some (String.ofList cs)
  | _ => none

theorem readField_eq_some_iff {s field : String} : readField s = some field ↔ s = "@" ++ field := by
  constructor
  · intro h
    unfold readField at h
    split at h
    · next cs hcs =>
      cases h
      exact String.toList_inj.mp (by simp [hcs])
    · cases h
  · rintro rfl
    simp [readField]

/-- A number in the form in which it is written. -/
def readParameter (s : String) : Option Number :=
  (signedNumberOf? s.toList).bind fun n => if n.text = s then some n else none

theorem readParameter_eq_some_iff {s : String} {n : Number} : readParameter s = some n ↔ s = n.text := by
  constructor
  · intro h
    obtain ⟨m, -, h⟩ := Option.bind_eq_some_iff.mp h
    split at h
    · next htext =>
      cases h
      exact htext.symm
    · cases h
  · rintro rfl
    simp [readParameter, signedNumberOf?_text]

/-- A direction by its name. -/
def readDirection : String → Option Direction
  | "ASC" => some .asc
  | "DESC" => some .desc
  | _ => none

theorem readDirection_eq_some_iff {s : String} {direction : Direction} :
    readDirection s = some direction ↔ s = direction.name := by
  constructor
  · intro h
    unfold readDirection at h
    split at h
    · cases h
      rfl
    · cases h
      rfl
    · cases h
  · rintro rfl
    cases direction <;> rfl

/-! ## 4. Counted arguments

A list stands behind the number of its elements.  The number alone says where it ends, whatever the elements
are. -/

/-- As many arguments as the number before them says. -/
def readCounted : List String → Option (List String × List String)
  | [] => none
  | count :: v =>
    (readNat count).bind fun n => if n ≤ v.length then some (v.take n, v.drop n) else none

theorem readCounted_eq_some_iff {v xs rest : List String} :
    readCounted v = some (xs, rest) ↔ v = Nat.repr xs.length :: (xs ++ rest) := by
  constructor
  · intro h
    cases v with
    | nil => cases h
    | cons count v =>
      obtain ⟨n, hn, h⟩ := Option.bind_eq_some_iff.mp h
      split at h
      · next hle =>
        cases h
        rw [readNat_eq_some_iff.mp hn, List.length_take_of_le hle, List.take_append_drop]
      · cases h
  · rintro rfl
    simp [readCounted]

theorem mapM_readField_eq_some_iff {xs fields : List String} :
    xs.mapM readField = some fields ↔ xs = fields.map ("@" ++ ·) := by
  have hread : ∀ {x field}, readField x = some field ↔ True ∧ x = "@" ++ field := by
    simp [readField_eq_some_iff]
  simpa using mapM_eq_some_iff hread

/-! ## 5. Reductions

The arguments of a reduction are counted, and their number tells the kinds of operands apart. -/

/-- What a reduction works on, from all arguments that are counted for it. -/
def readOperands : List String → Option CommandOperands
  | [] => some .none
  | [marked] => (readField marked).map .field
  | [marked, number] =>
    (readField marked).bind fun name => (readParameter number).map (.parameter name)
  | [marked, "BY", markedKey, direction] =>
    (readField marked).bind fun name =>
      (readField markedKey).bind fun key =>
        (readDirection direction).map fun direction => .ordered name ⟨key, direction⟩
  | _ => none

theorem readOperands_sound {xs : List String} {o : CommandOperands} (h : readOperands xs = some o) :
    xs = o.args := by
  unfold readOperands at h
  split at h
  · cases h
    rfl
  · obtain ⟨name, hname, rfl⟩ := Option.map_eq_some_iff.mp h
    rw [readField_eq_some_iff.mp hname]
    rfl
  · obtain ⟨name, hname, h⟩ := Option.bind_eq_some_iff.mp h
    obtain ⟨value, hvalue, rfl⟩ := Option.map_eq_some_iff.mp h
    rw [readField_eq_some_iff.mp hname, readParameter_eq_some_iff.mp hvalue]
    rfl
  · obtain ⟨name, hname, h⟩ := Option.bind_eq_some_iff.mp h
    obtain ⟨key, hkey, h⟩ := Option.bind_eq_some_iff.mp h
    obtain ⟨direction, hdirection, rfl⟩ := Option.map_eq_some_iff.mp h
    rw [readField_eq_some_iff.mp hname, readField_eq_some_iff.mp hkey,
      readDirection_eq_some_iff.mp hdirection]
    rfl
  · cases h

theorem readOperands_args (o : CommandOperands) : readOperands o.args = some o := by
  have hfield : ∀ name, readField ("@" ++ name) = some name := fun _ => readField_eq_some_iff.mpr rfl
  cases o with
  | none => rfl
  | field name => simp [CommandOperands.args, readOperands, hfield]
  | parameter name value =>
    simp [CommandOperands.args, readOperands, hfield, readParameter_eq_some_iff.mpr rfl]
  | ordered name key =>
    simp [CommandOperands.args, readOperands, hfield, readDirection_eq_some_iff.mpr rfl]

/-- The name behind what a reduction works on. -/
def readLabel : List String → Option (String × List String)
  | "AS" :: label :: rest => some (label, rest)
  | _ => none

theorem readLabel_sound {v rest : List String} {label : String} (h : readLabel v = some (label, rest)) :
    v = "AS" :: label :: rest := by
  unfold readLabel at h
  split at h
  · cases h
    rfl
  · cases h

def readReduction : List String → Option (CommandReduction × List String)
  | "REDUCE" :: name :: v =>
    (ReduceFunction.ofName? name).bind fun function =>
      (readCounted v).bind fun counted =>
        (readOperands counted.1).bind fun operands =>
          (readLabel counted.2).map fun labelled => (⟨function, operands, labelled.1⟩, labelled.2)
  | _ => none

theorem ReduceFunction.ofName?_eq_some_iff {name : String} {function : ReduceFunction} :
    ofName? name = some function ↔ name = function.name := by
  constructor
  · intro h
    unfold ofName? at h
    have hname := List.find?_some h
    exact (eq_of_beq hname).symm
  · rintro rfl
    cases function <;> rfl

theorem readReduction_eq_some_iff {v rest : List String} {r : CommandReduction} :
    readReduction v = some (r, rest) ↔ v = r.args ++ rest := by
  constructor
  · intro h
    unfold readReduction at h
    split at h
    · next name v =>
      obtain ⟨function, hfunction, h⟩ := Option.bind_eq_some_iff.mp h
      obtain ⟨⟨xs, v'⟩, hcounted, h⟩ := Option.bind_eq_some_iff.mp h
      obtain ⟨operands, hoperands, h⟩ := Option.bind_eq_some_iff.mp h
      obtain ⟨⟨label, rest'⟩, hlabel, h⟩ := Option.map_eq_some_iff.mp h
      cases h
      obtain rfl : xs = operands.args := readOperands_sound hoperands
      obtain rfl : v' = "AS" :: label :: rest' := readLabel_sound hlabel
      rw [ReduceFunction.ofName?_eq_some_iff.mp hfunction, readCounted_eq_some_iff.mp hcounted]
      simp [CommandReduction.args]
    · cases h
  · rintro rfl
    have hcounted : readCounted (Nat.repr r.operands.args.length ::
        (r.operands.args ++ "AS" :: r.label :: rest))
          = some (r.operands.args, "AS" :: r.label :: rest) := readCounted_eq_some_iff.mpr rfl
    simp [CommandReduction.args, readReduction, ReduceFunction.ofName?_eq_some_iff.mpr rfl, hcounted,
      readOperands_args, readLabel]

/-- A reduction comes next. -/
def startsReduction : List String → Bool
  | "REDUCE" :: _ => true
  | _ => false

def readReductions : List String → Option (List CommandReduction × List String) :=
  readAll startsReduction readReduction

theorem readReductions_sound {v rest : List String} {rs : List CommandReduction}
    (h : readReductions v = some (rs, rest)) :
    v = rs.flatMap CommandReduction.args ++ rest :=
  (readMany_sound readReduction_eq_some_iff.mp h).1

theorem readReductions_complete (rs : List CommandReduction) {rest : List String}
    (hrest : startsReduction rest = false) :
    readReductions (rs.flatMap CommandReduction.args ++ rest) = some (rs, rest) :=
  readAll_complete (fun _ => True) (fun _ => readReduction_eq_some_iff.mpr rfl)
    (fun _ _ => trivial) (fun _ _ => rfl) (fun _ => List.cons_ne_nil _ _) trivial hrest rs

/-! ## 6. Clauses

A clause is known from its first argument. -/

def readClause : List String → Option (CommandClause × List String)
  | "GROUPBY" :: v =>
    (readCounted v).bind fun (marked, v) =>
      (marked.mapM readField).bind fun fields =>
        (readReductions v).map fun (reductions, rest) => (.group fields reductions, rest)
  | "SORTBY" :: "2" :: marked :: name :: rest =>
    (readField marked).bind fun field =>
      (readDirection name).map fun direction => (.sort ⟨field, direction⟩, rest)
  | "APPLY" :: expr :: "AS" :: label :: rest => some (.apply expr label, rest)
  | "FILTER" :: expr :: rest => some (.filter expr, rest)
  | _ => none

theorem readClause_sound {v rest : List String} {c : CommandClause}
    (h : readClause v = some (c, rest)) : v = c.args ++ rest := by
  unfold readClause at h
  split at h
  · next v =>
    obtain ⟨⟨marked, v'⟩, hmarked, h⟩ := Option.bind_eq_some_iff.mp h
    obtain ⟨fields, hfields, h⟩ := Option.bind_eq_some_iff.mp h
    obtain ⟨⟨reductions, rest'⟩, hreductions, h⟩ := Option.map_eq_some_iff.mp h
    cases h
    rw [readCounted_eq_some_iff.mp hmarked, mapM_readField_eq_some_iff.mp hfields,
      readReductions_sound hreductions]
    simp [CommandClause.args]
  · next marked name rest =>
    obtain ⟨field, hfield, h⟩ := Option.bind_eq_some_iff.mp h
    obtain ⟨direction, hdirection, h⟩ := Option.map_eq_some_iff.mp h
    cases h
    rw [readField_eq_some_iff.mp hfield, readDirection_eq_some_iff.mp hdirection]
    rfl
  · cases h
    rfl
  · cases h
    rfl
  · cases h

theorem readClause_complete (c : CommandClause) {rest : List String}
    (hrest : startsReduction rest = false) : readClause (c.args ++ rest) = some (c, rest) := by
  cases c with
  | group fields reductions =>
    have hcounted : readCounted (Nat.repr fields.length :: (fields.map ("@" ++ ·)
          ++ (reductions.flatMap CommandReduction.args ++ rest)))
        = some (fields.map ("@" ++ ·), reductions.flatMap CommandReduction.args ++ rest) :=
      readCounted_eq_some_iff.mpr (by simp)
    have hfields : (fields.map ("@" ++ ·)).mapM readField = some fields :=
      mapM_readField_eq_some_iff.mpr rfl
    simp only [CommandClause.args, List.cons_append, List.append_assoc, readClause, hcounted,
      Option.bind_some, hfields, readReductions_complete reductions hrest, Option.map_some]
  | sort key =>
    have hfield : readField ("@" ++ key.field) = some key.field := readField_eq_some_iff.mpr rfl
    have hdirection : readDirection key.direction.name = some key.direction :=
      readDirection_eq_some_iff.mpr rfl
    simp only [CommandClause.args, List.cons_append, List.nil_append, readClause, hfield,
      hdirection, Option.bind_some, Option.map_some]
  | apply expr label => rfl
  | filter expr => rfl

/-- A clause comes next, and not the limit or the end. -/
def startsClause : List String → Bool
  | [] => false
  | "LIMIT" :: _ => false
  | _ => true

theorem startsClause_args (c : CommandClause) (rest : List String) :
    startsClause (c.args ++ rest) = true := by
  cases c <;> rfl

theorem startsReduction_args (c : CommandClause) (rest : List String) :
    startsReduction (c.args ++ rest) = false := by
  cases c <;> rfl

/-! ## 7. Whole vectors -/

/-- The limit, after which nothing may come. -/
def readLimit : List String → Option (Option (Nat × Nat))
  | [] => some none
  | ["LIMIT", offset, count] =>
    (readNat offset).bind fun offset => (readNat count).map fun count => some (offset, count)
  | _ => none

theorem readLimit_eq_some_iff {v : List String} {limit : Option (Nat × Nat)} :
    readLimit v = some limit ↔ v = limitArgs limit := by
  constructor
  · intro h
    unfold readLimit at h
    split at h
    · cases h
      rfl
    · next offset count =>
      obtain ⟨o, ho, h⟩ := Option.bind_eq_some_iff.mp h
      obtain ⟨n, hn, h⟩ := Option.map_eq_some_iff.mp h
      cases h
      rw [readNat_eq_some_iff.mp ho, readNat_eq_some_iff.mp hn]
      rfl
    · cases h
  · rintro rfl
    cases limit with
    | none => rfl
    | some window => simp [limitArgs, readLimit]

/-- **Reading a vector by its counts.** -/
def readCommand : List String → Option AggregateCommand
  | indexName :: queryText :: v =>
    (readAll startsClause readClause v).bind fun (clauses, rest) =>
      (readLimit rest).map fun limit => { indexName, queryText, clauses, limit }
  | _ => none

/-- **Reading accepts exactly what is written**, as the command that it was written from. -/
theorem readCommand_eq_some_iff {v : List String} {c : AggregateCommand} :
    readCommand v = some c ↔ v = c.args := by
  constructor
  · intro h
    unfold readCommand at h
    split at h
    · next indexName queryText v =>
      obtain ⟨⟨clauses, rest⟩, hclauses, h⟩ := Option.bind_eq_some_iff.mp h
      obtain ⟨limit, hlimit, h⟩ := Option.map_eq_some_iff.mp h
      cases h
      rw [(readMany_sound readClause_sound hclauses).1, readLimit_eq_some_iff.mp hlimit]
      rfl
    · cases h
  · rintro rfl
    have hreduction : startsReduction (limitArgs c.limit) = false := by
      cases c.limit <;> rfl
    have hclause : startsClause (limitArgs c.limit) = false := by
      cases c.limit <;> rfl
    have hclauses : readAll startsClause readClause
          (c.clauses.flatMap CommandClause.args ++ limitArgs c.limit)
        = some (c.clauses, limitArgs c.limit) :=
      -- behind a clause there is no reduction left
      readAll_complete (fun rest => startsReduction rest = false)
        (fun hrest => readClause_complete _ hrest) startsReduction_args startsClause_args
        (fun clause => by cases clause <;> simp [CommandClause.args]) hreduction hclause c.clauses
    simp only [AggregateCommand.args, readCommand, hclauses, Option.bind_some,
      readLimit_eq_some_iff.mpr rfl, Option.map_some]

-- keywords as fields and as names
example : readCommand ["people", "*", "GROUPBY", "1", "@LIMIT", "REDUCE", "COUNT", "0", "AS", "REDUCE",
      "REDUCE", "FIRST_VALUE", "4", "@BY", "BY", "@AS", "DESC", "AS", "AS", "FILTER", "GROUPBY",
      "LIMIT", "0", "10"]
    = some ⟨"people", "*",
        [.group ["LIMIT"] [⟨.count, .none, "REDUCE"⟩, ⟨.firstValue, .ordered "BY" ⟨"AS", .desc⟩, "AS"⟩],
          .filter "GROUPBY"],
        some (0, 10)⟩ := by
  decide

end IndexQuery
