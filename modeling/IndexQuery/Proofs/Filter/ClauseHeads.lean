/-
# The clause heads of a query text

A clause begins with its head, `@name:`.  `clauseHeads` lists the heads that stand outside the literals
of a text: not between double quotes, and not behind a backslash.

A filter shows the head of each of its clauses, and nothing that is escaped or quoted adds one.  But the
compiler writes some constants as they are: those of a numeric field, and all of a text field that is
not compared for equality (`Condition.raws`).  Such a constant shows the heads that it holds, whether or
not its name may be searched.

The main result gives the heads of a compiled text exactly, and it says which schemas are safe from such
constants: those that let no numeric and no text field be searched (`clauseHeads_filterText`).

The scan of a text composes at a character that can neither continue a name nor end a head (`IsCut`).
`Shows u names` is what a part `u` of a text adds to the heads of the whole.
-/
import IndexQuery.Proofs.Filter.Meaning

namespace IndexQuery

/-! ## 1. Heads outside literals -/

/-- Where a scan is: between double quotes or not, and right behind a backslash or not. -/
structure LiteralMode where
  quoted : Bool
  escaped : Bool
  deriving DecidableEq

namespace LiteralMode

/-- In no literal. -/
def outside : LiteralMode := ⟨false, false⟩

/-- Between double quotes. -/
def inside : LiteralMode := ⟨true, false⟩

/-- Where a scan is after one more character. -/
def next (m : LiteralMode) (c : Char) : LiteralMode :=
  if m.escaped then ⟨m.quoted, false⟩
  else if c = '\\' then ⟨m.quoted, true⟩
  else if c = '"' then ⟨!m.quoted, false⟩
  else m

/-- Where a scan is after a text. -/
def after (m : LiteralMode) (u : List Char) : LiteralMode :=
  u.foldl next m

end LiteralMode

/-- The name of a head, behind its sign: a non-empty word up to a colon. -/
def headName? (u : List Char) : Option String :=
  if u.takeWhile isWordChar ≠ [] ∧ (u.dropWhile isWordChar).head? = some ':' then
    some (String.ofList (u.takeWhile isWordChar))
  else none

/-- The heads of a text that a scan meets outside literals. -/
def headsFrom (m : LiteralMode) : List Char → List String
  | [] => []
  | c :: u =>
    (if m = .outside ∧ c = '@' then (headName? u).toList else []) ++ headsFrom (m.next c) u

/-- **The names in the clause heads of a text.** -/
def clauseHeads (text : String) : List String :=
  headsFrom .outside text.toList

/-- A text whose quotes are closed and that does not end with a backslash of its own. -/
def ClosesLiterals (text : String) : Prop :=
  LiteralMode.outside.after text.toList = .outside

instance (text : String) : Decidable (ClosesLiterals text) :=
  inferInstanceAs (Decidable (_ = _))

/-! ## 2. Where a text can be cut -/

/-- A text that does not continue a name or end a head. -/
def IsCut (v : List Char) : Prop :=
  ∀ c ∈ v.head?, isWordChar c = false ∧ c ≠ ':'

theorem IsCut.append {u v : List Char} (hu : IsCut u) (hv : IsCut v) : IsCut (u ++ v) := by
  cases u with
  | nil => exact hv
  | cons c u => exact hu

theorem isCut_cons {c : Char} (hc : isWordChar c = false) (hcolon : c ≠ ':') (v : List Char) :
    IsCut (c :: v) := by
  intro d hd
  obtain rfl : c = d := by simpa using hd
  exact ⟨hc, hcolon⟩

theorem headName?_append {v : List Char} (hv : IsCut v) (u : List Char) :
    headName? (u ++ v) = headName? u := by
  unfold headName?
  by_cases hword : u.dropWhile isWordChar = []
  · -- the name goes on to the cut, where no colon stands
    have hdrop : (u ++ v).dropWhile isWordChar = v := by
      rw [List.dropWhile_append, hword]
      cases v with
      | nil => rfl
      | cons c v => exact List.dropWhile_cons_of_neg (by simp [(hv c rfl).1])
    have hcolon : v.head? ≠ some ':' := fun hhead => (hv ':' hhead).2 rfl
    rw [hdrop, hword, if_neg fun h => hcolon h.2, if_neg fun h => by cases h.2]
  · have hlength : (u.takeWhile isWordChar).length ≠ u.length := by
      have hpos := List.length_pos_iff.mpr hword
      have hsum := congrArg List.length (List.takeWhile_append_dropWhile (p := isWordChar) (l := u))
      rw [List.length_append] at hsum
      omega
    have hempty : ¬ (u.dropWhile isWordChar).isEmpty = true := by simpa using hword
    rw [List.dropWhile_append, List.takeWhile_append, if_neg hlength, if_neg hempty,
      List.head?_append_of_ne_nil _ hword]

/-- **A cut divides the heads of a text.** -/
theorem headsFrom_append {v : List Char} (hv : IsCut v) (m : LiteralMode) (u : List Char) :
    headsFrom m (u ++ v) = headsFrom m u ++ headsFrom (m.after u) v := by
  induction u generalizing m with
  | nil => rfl
  | cons c u ih =>
    rw [List.cons_append, headsFrom, headsFrom, headName?_append hv, ih, List.append_assoc]
    rfl

theorem headsFrom_cons_of_ne {m : LiteralMode} (hm : m ≠ .outside) (c : Char) (u : List Char) :
    headsFrom m (c :: u) = headsFrom (m.next c) u := by
  rw [headsFrom, if_neg fun h => hm h.1, List.nil_append]

theorem LiteralMode.after_append (m : LiteralMode) (u v : List Char) :
    m.after (u ++ v) = (m.after u).after v :=
  List.foldl_append

/-! ## 3. What a part of a text shows -/

/-- A part of a text that has these heads, whatever stands behind a cut. -/
structure Shows (u : List Char) (names : List String) : Prop where
  closes : LiteralMode.outside.after u = .outside
  heads : ∀ v, IsCut v → headsFrom .outside (u ++ v) = names ++ headsFrom .outside v

/-- A part of a text that has no head, and begins none. -/
structure Silent (u : List Char) : Prop where
  closes : LiteralMode.outside.after u = .outside
  heads : ∀ v, headsFrom .outside (u ++ v) = headsFrom .outside v

theorem Silent.nil : Silent [] :=
  ⟨rfl, fun _ => rfl⟩

theorem Silent.append {u v : List Char} (hu : Silent u) (hv : Silent v) : Silent (u ++ v) := by
  refine ⟨by rw [LiteralMode.after_append, hu.closes, hv.closes], fun w => ?_⟩
  rw [List.append_assoc, hu.heads, hv.heads]

theorem Silent.shows {u : List Char} (h : Silent u) : Shows u [] :=
  ⟨h.closes, fun v _ => h.heads v⟩

theorem Silent.append_shows {u v : List Char} {names : List String} (hu : Silent u)
    (hv : Shows v names) : Shows (u ++ v) names := by
  refine ⟨by rw [LiteralMode.after_append, hu.closes, hv.closes], fun w hw => ?_⟩
  rw [List.append_assoc, hu.heads, hv.heads w hw]

/-- **What two parts show**, if the second one begins with a cut. -/
theorem Shows.append {u v : List Char} {names names' : List String} (hu : Shows u names)
    (hv : Shows v names') (hcut : IsCut v) : Shows (u ++ v) (names ++ names') := by
  refine ⟨by rw [LiteralMode.after_append, hu.closes, hv.closes], fun w hw => ?_⟩
  rw [List.append_assoc, hu.heads _ (hcut.append hw), hv.heads w hw, List.append_assoc]

theorem Shows.append_silent {u v : List Char} {names : List String} (hu : Shows u names)
    (hv : Silent v) (hcut : IsCut v) : Shows (u ++ v) names := by
  have h := hu.append hv.shows hcut
  rwa [List.append_nil] at h

/-- The heads of a whole text. -/
theorem Shows.clauseHeads_eq {t : String} {names : List String} (h : Shows t.toList names) :
    clauseHeads t = names := by
  have hheads := h.heads [] (by simp [IsCut])
  rwa [List.append_nil, headsFrom, List.append_nil] at hheads

/-- A text that closes its literals shows its own heads. -/
theorem shows_clauseHeads {t : String} (h : ClosesLiterals t) : Shows t.toList (clauseHeads t) := by
  refine ⟨h, fun v hv => ?_⟩
  rw [headsFrom_append hv, h]
  rfl

/-- Parts with a separator between them show what they show each. -/
theorem shows_intercalate {α : Type} {text : α → List Char} {names : α → List String}
    {sep : List Char} (hsep : Silent sep) (hcut : IsCut sep) :
    ∀ {xs : List α}, (∀ x ∈ xs, Shows (text x) (names x)) → sep ≠ [] →
      Shows (sep.intercalate (xs.map text)) (xs.flatMap names)
  | [], _, _ => Silent.nil.shows
  | [x], h, _ => by simpa using h x (by simp)
  | x :: y :: xs, h, hne => by
    have hrest := shows_intercalate hsep hcut (fun z hz => h z (List.mem_cons_of_mem x hz)) hne
    rw [List.map_cons, List.map_cons, List.intercalate_cons_cons, List.flatMap_cons, ← List.map_cons]
    obtain ⟨c, w, rfl⟩ := List.exists_cons_of_ne_nil hne
    rw [List.append_assoc]
    exact (h x (by simp)).append (hsep.append_shows hrest) (isCut_cons (hcut c rfl).1 (hcut c rfl).2 _)

/-! ## 4. Literals show nothing -/

/-- A character that is part of no head and of no literal's delimiters. -/
def isSilentChar (c : Char) : Bool :=
  c != '@' && c != '"' && c != '\\'

theorem silent_singleton {c : Char} (h : isSilentChar c = true) : Silent [c] := by
  have hne : c ≠ '@' ∧ c ≠ '"' ∧ c ≠ '\\' := by
    simpa [isSilentChar, and_assoc] using h
  have hnext : LiteralMode.outside.next c = .outside := by
    simp [LiteralMode.next, LiteralMode.outside, hne]
  exact ⟨hnext, fun v => by simp [headsFrom, hnext, hne]⟩

theorem silent_of_all {u : List Char} (h : u.all isSilentChar = true) : Silent u := by
  induction u with
  | nil => exact .nil
  | cons c u ih =>
    rw [List.all_cons, Bool.and_eq_true] at h
    exact (silent_singleton h.1).append (ih h.2)

theorem silent_escaped (c : Char) : Silent ['\\', c] := by
  refine ⟨by simp [LiteralMode.after, LiteralMode.next, LiteralMode.outside], fun v => ?_⟩
  simp [headsFrom, LiteralMode.next, LiteralMode.outside]

theorem isSilentChar_of_not_special {c : Char} (h : ¬ isTagSpecial c = true) :
    isSilentChar c = true := by
  have hne : ∀ d, isTagSpecial d = true → c ≠ d := fun d hd heq => h (heq ▸ hd)
  have h₁ := hne '@' (by decide)
  have h₂ := hne '"' (by decide)
  have h₃ := hne '\\' (by decide)
  simp [isSilentChar, h₁, h₂, h₃]

/-- A pair of brackets, of any kind, shows what stands in it. -/
theorem Shows.enclosed {u : List Char} {names : List String} (h : Shows u names) (left right : Char)
    (hleft : isSilentChar left = true := by decide) (hright : isSilentChar right = true := by decide)
    (hword : isWordChar right = false := by decide) (hcolon : right ≠ ':' := by decide) :
    Shows (left :: u ++ [right]) names := by
  have hopened : Shows (left :: u) names := (silent_singleton hleft).append_shows h
  exact hopened.append_silent (silent_singleton hright) (isCut_cons hword hcolon _)

/-- **A tag value is silent**, since its escapes cover the sign of a head and both delimiters. -/
theorem silent_escapeTag (value : String) : Silent (escapeTag value).toList := by
  rw [escapeTag, toList_escape]
  induction value.toList with
  | nil => exact .nil
  | cons c u ih =>
    by_cases h : isTagSpecial c = true
    · rw [escapeChars, if_pos h]
      exact (silent_escaped c).append ih
    · rw [escapeChars, if_neg h]
      exact (silent_singleton (isSilentChar_of_not_special h)).append ih

/-- Between quotes a scan meets no head, and the escapes keep it there. -/
theorem scan_phrase (u v : List Char) :
    LiteralMode.inside.after (escapeChars (isQuoteSpecial '"') u) = .inside ∧
      headsFrom .inside (escapeChars (isQuoteSpecial '"') u ++ v) = headsFrom .inside v := by
  induction u with
  | nil => exact ⟨rfl, rfl⟩
  | cons c u ih =>
    by_cases h : isQuoteSpecial '"' c = true
    · rw [escapeChars, if_pos h]
      refine ⟨ih.1, ?_⟩
      rw [List.cons_append, List.cons_append, headsFrom_cons_of_ne (by decide),
        headsFrom_cons_of_ne (by decide)]
      exact ih.2
    · have hne : c ≠ '"' ∧ c ≠ '\\' := by simpa [isQuoteSpecial] using h
      have hnext : LiteralMode.inside.next c = .inside := by
        simp [LiteralMode.next, LiteralMode.inside, hne]
      rw [escapeChars, if_neg h]
      refine ⟨?_, ?_⟩
      · rw [LiteralMode.after, List.foldl_cons, hnext]
        exact ih.1
      · rw [List.cons_append, headsFrom_cons_of_ne (by decide), hnext]
        exact ih.2

theorem silent_quotePhrase (value : String) : Silent (quotePhrase value).toList := by
  have hopen : LiteralMode.outside.after ['"'] = .inside := rfl
  have hclose : LiteralMode.inside.after ['"'] = .outside := rfl
  rw [quotePhrase, toList_quoted, ← List.singleton_append, List.append_assoc]
  refine ⟨?_, fun v => ?_⟩
  · rw [LiteralMode.after_append, LiteralMode.after_append, hopen, (scan_phrase _ []).1, hclose]
  · rw [List.append_assoc, List.append_assoc, List.singleton_append, headsFrom,
      if_neg (by decide), List.nil_append]
    have hinside := (scan_phrase value.toList ('"' :: v)).2
    rw [headsFrom_cons_of_ne (by decide)] at hinside
    exact hinside

theorem silent_of_isNumeral {u : List Char} (h : IsNumeral u) : Silent u := by
  refine silent_of_all (List.all_eq_true.mpr fun c hc => ?_)
  have hc := h.2 c hc
  have hne : c ≠ '@' ∧ c ≠ '"' ∧ c ≠ '\\' :=
    ⟨ne_of_class hc (by decide), ne_of_class hc (by decide), ne_of_class hc (by decide)⟩
  simp [isSilentChar, hne]

/-! ## 5. Clauses and filters -/

/-- The values of a bound, which are written as they are. -/
def Bound.raws : Bound → List String
  | unbounded => []
  | inclusive value | exclusive value => [value]

/-- The field that a clause is about. -/
def Clause.field : Clause → String
  | tag field _ | phrase field _ | wildcard field _ | words field _ | range field _ _ => field
  | geo radius => radius.field

/-- The values of a clause that are written as they are. -/
def Clause.raws : Clause → List String
  | tag _ _ | phrase _ _ | geo _ => []
  | wildcard _ pattern => [pattern.value]
  | words _ values => values
  | range _ low high => low.raws ++ high.raws

/-- A clause without its head. -/
def Clause.body : Clause → String
  | tag _ patterns => "\x7b" ++ "|".intercalate (patterns.map Pattern.tagText) ++ "\x7d"
  | phrase _ value => quotePhrase value
  | wildcard _ pattern => pattern.plainText
  | words _ values => "(" ++ "|".intercalate values ++ ")"
  | range _ low high => "[" ++ low.text "-" ++ " " ++ high.text "" ++ "]"
  | geo r =>
    "[" ++ " ".intercalate
      [r.longitude.plainText, r.latitude.plainText, r.radius.plainText, r.unit.name] ++ "]"

theorem Clause.text_eq_body (c : Clause) : c.text = head c.field ++ c.body := by
  cases c <;> simp only [text, field, body, String.append_assoc]

/-- The clauses of a filter, in their order. -/
def Filter.clauses : Filter → List Clause
  | clause c => [c]
  | group f | negated f => f.clauses
  | both l r | either l r => l.clauses ++ r.clauses
  | anyOf cs => cs

/-- **The heads of a clause**: its own, and those of the values that are written as they are. -/
def Clause.heads (c : Clause) : List String :=
  c.field :: c.raws.flatMap clauseHeads

theorem isSilentChar_of_isWordChar {c : Char} (h : isWordChar c = true) : isSilentChar c = true := by
  have hne : c ≠ '@' ∧ c ≠ '"' ∧ c ≠ '\\' :=
    ⟨ne_of_class h (by decide), ne_of_class h (by decide), ne_of_class h (by decide)⟩
  simp [isSilentChar, hne]

theorem headName?_word {field : String} (hf : IsWord field) (u : List Char) :
    headName? (field.toList ++ ':' :: u) = some field := by
  have hcolon : ∀ c ∈ (':' :: u).head?, isWordChar c = false := by
    rintro c ⟨⟩
    decide
  obtain ⟨htake, hdrop⟩ := span_append hf.2 hcolon
  rw [headName?, htake, hdrop, if_pos ⟨hf.1, rfl⟩, String.ofList_toList]

/-- The head of a clause shows its name. -/
theorem shows_head {field body : String} {names : List String} (hf : IsWord field)
    (hb : Shows body.toList names) : Shows (Clause.head field ++ body).toList (field :: names) := by
  have hname : Silent (field.toList ++ [':']) := by
    refine silent_of_all (List.all_eq_true.mpr fun c hc => ?_)
    rcases List.mem_append.mp hc with hc | hc
    · exact isSilentChar_of_isWordChar (hf.2 c hc)
    · rw [List.mem_singleton.mp hc]
      decide
  have htext : (Clause.head field ++ body).toList = '@' :: (field.toList ++ [':'] ++ body.toList) := by
    simp [Clause.head]
  have hrest := hname.append_shows hb
  rw [htext]
  refine ⟨hrest.closes, fun v hv => ?_⟩
  have hhead : headName? (field.toList ++ [':'] ++ body.toList ++ v) = some field := by
    simpa using headName?_word hf (body.toList ++ v)
  rw [List.cons_append, headsFrom, if_pos ⟨rfl, rfl⟩, hhead]
  exact congrArg (field :: ·) (hrest.heads v hv)

theorem Pattern.silent_tagText (p : Pattern) : Silent p.tagText.toList := by
  have hstar : ∀ present : Bool, Silent (if present then "*" else "").toList := by
    intro present
    cases present
    · exact silent_of_all rfl
    · exact silent_of_all rfl
  rw [tagText, around, String.toList_append, String.toList_append]
  exact ((hstar _).append (silent_escapeTag _)).append (hstar _)

theorem Bound.shows_text {b : Bound} (sign : String) (hsign : sign.toList.all isSilentChar = true)
    (h : ∀ r ∈ b.raws, ClosesLiterals r) :
    Shows (b.text sign).toList (b.raws.flatMap clauseHeads) := by
  cases b with
  | unbounded =>
    rw [text, String.toList_append]
    exact ((silent_of_all hsign).append (silent_of_all rfl)).shows
  | inclusive value => simpa [raws, text] using shows_clauseHeads (h value (by simp [raws]))
  | exclusive value =>
    have hvalue := shows_clauseHeads (h value (by simp [raws]))
    have hmark : Silent "(".toList := silent_of_all rfl
    simpa [raws, text] using hmark.append_shows hvalue

theorem Pattern.shows_plainText (p : Pattern) (h : ClosesLiterals p.value) :
    Shows p.plainText.toList (clauseHeads p.value) := by
  have hvalue := shows_clauseHeads h
  have hstar : Silent ['*'] := silent_of_all rfl
  have hcut : IsCut ['*'] := isCut_cons (by decide) (by decide) _
  obtain ⟨value, before, after⟩ := p
  cases before <;> cases after
  · simpa [plainText, around] using hvalue
  · simpa [plainText, around] using hvalue.append_silent hstar hcut
  · simpa [plainText, around] using hstar.append_shows hvalue
  · simpa [plainText, around] using hstar.append_shows (hvalue.append_silent hstar hcut)

/-- Behind its head a clause shows what its values show that are written as they are. -/
theorem Clause.shows_body {c : Clause} (h : ∀ r ∈ c.raws, ClosesLiterals r) :
    Shows c.body.toList (c.raws.flatMap clauseHeads) := by
  have hbar : Silent ['|'] := silent_of_all rfl
  have hbarCut : IsCut ['|'] := isCut_cons (by decide) (by decide) _
  have hblank : Silent [' '] := silent_of_all rfl
  have hblankCut : ∀ u, IsCut (' ' :: u) := isCut_cons (by decide) (by decide)
  cases c with
  | tag field patterns =>
    have hpatterns := shows_intercalate hbar hbarCut
      (fun p (_ : p ∈ patterns) => p.silent_tagText.shows) (by simp)
    rw [List.flatMap_eq_nil_iff.mpr fun _ _ => rfl] at hpatterns
    simpa [body, raws, Function.comp_def] using hpatterns.enclosed '\x7b' '\x7d'
  | phrase field value => exact (silent_quotePhrase value).shows
  | wildcard field pattern =>
    simpa [body, raws] using pattern.shows_plainText (h _ (by simp [raws]))
  | words field values =>
    have hvalues := shows_intercalate hbar hbarCut
      (fun v (hv : v ∈ values) => shows_clauseHeads (h v hv)) (by simp)
    simpa [body, raws] using hvalues.enclosed '(' ')'
  | range field low high =>
    have hlow := Bound.shows_text "-" rfl fun r hr => h r (List.mem_append_left _ hr)
    have hhigh := Bound.shows_text "" rfl fun r hr => h r (List.mem_append_right _ hr)
    have hbounds := hlow.append (hblank.append_shows hhigh) (hblankCut _)
    simpa [body, raws] using hbounds.enclosed '[' ']'
  | geo r =>
    have hunit : Silent r.unit.name.toList := by
      cases r.unit <;> exact silent_of_all rfl
    have hparts : ∀ part ∈ [r.longitude.plainText, r.latitude.plainText, r.radius.plainText,
        r.unit.name], Shows part.toList [] := by
      intro part hpart
      simp only [List.mem_cons, List.not_mem_nil, or_false] at hpart
      rcases hpart with rfl | rfl | rfl | rfl
      · exact (silent_of_isNumeral (isNumeral_plainText _)).shows
      · exact (silent_of_isNumeral (isNumeral_plainText _)).shows
      · exact (silent_of_isNumeral (isNumeral_plainText _)).shows
      · exact hunit.shows
    have hbody := shows_intercalate hblank (hblankCut []) hparts (by simp)
    simpa [body, raws] using hbody.enclosed '[' ']'

/-- **A clause shows its heads.** -/
theorem Clause.shows_text {c : Clause} (hf : IsWord c.field) (h : ∀ r ∈ c.raws, ClosesLiterals r) :
    Shows c.text.toList c.heads := by
  rw [text_eq_body]
  exact shows_head hf (shows_body h)

/-- **A filter shows the heads of its clauses**, in their order, and no other. -/
theorem Filter.shows_text : ∀ {f : Filter}, (∀ c ∈ f.clauses, IsWord c.field) →
    (∀ c ∈ f.clauses, ∀ r ∈ c.raws, ClosesLiterals r) →
      Shows f.text.toList (f.clauses.flatMap Clause.heads)
  | .clause c, hf, h => by
    have hclause := Clause.shows_text (hf c (by simp [clauses])) (h c (by simp [clauses]))
    simpa [text, clauses] using hclause
  | .group f, hf, h => by
    have hgroup := (shows_text (f := f) hf h).enclosed '(' ')'
    simpa [text, clauses] using hgroup
  | .negated f, hf, h => by
    have hsign : Silent ['-'] := silent_of_all rfl
    simpa [text, clauses] using hsign.append_shows (shows_text (f := f) hf h)
  | .both l r, hf, h => by
    obtain ⟨hfl, hfr⟩ := List.forall_mem_append.mp hf
    obtain ⟨hl, hr⟩ := List.forall_mem_append.mp h
    have hblank : Silent [' '] := silent_of_all rfl
    have hjoined := (shows_text hfl hl).append (hblank.append_shows (shows_text hfr hr))
      (isCut_cons (by decide) (by decide) _)
    simpa [text, clauses] using hjoined.enclosed '(' ')'
  | .either l r, hf, h => by
    obtain ⟨hfl, hfr⟩ := List.forall_mem_append.mp hf
    obtain ⟨hl, hr⟩ := List.forall_mem_append.mp h
    have hbar : Silent [' ', '|', ' '] := silent_of_all rfl
    have hjoined := (shows_text hfl hl).append (hbar.append_shows (shows_text hfr hr))
      (isCut_cons (by decide) (by decide) _)
    simpa [text, clauses] using hjoined.enclosed '(' ')'
  | .anyOf cs, hf, h => by
    have hbar : Silent [' ', '|', ' '] := silent_of_all rfl
    have hjoined := shows_intercalate hbar (isCut_cons (by decide) (by decide) _)
      (fun c hc => Clause.shows_text (hf c hc) (h c hc)) (by simp)
    simpa [text, clauses, Function.comp_def] using hjoined.enclosed '(' ')'
termination_by structural f => f

/-! ## 6. Conditions -/

/-- The constants of a test on a field of a kind that are written as they are. -/
def Test.raws : Test → FieldKind → List String
  | t, .numeric => t.constants.map numericText
  | equals _, .text => []
  | t, .text => t.constants.map Json.plain
  | _, _ => []

/-- The fields of a condition. -/
def Condition.fields : Condition → List String
  | test field _ => [field]
  | not c => c.fields
  | both l r | either l r => l.fields ++ r.fields

/-- **The constants of a condition that are written as they are.** -/
def Condition.raws (s : Schema) : Condition → List String
  | test field t => ((s.field? field).map fun spec => t.raws spec.resolved).getD []
  | not c => c.raws s
  | both l r | either l r => l.raws s ++ r.raws s

theorem Condition.raws_test {s : Schema} {field : String} {kind : FieldKind}
    (hk : s.Searches field kind) (t : Test) : (Condition.test field t).raws s = t.raws kind := by
  obtain ⟨spec, hspec, -, rfl⟩ := hk
  simp [raws, hspec]

/-- Every clause for a test is about the tested field, and together they write the constants of the
test as they are that the kind of the field does not escape. -/
theorem Test.clauses_of_filter? {field : String} {kind : FieldKind} {t : Test} {f : Filter}
    (hf : t.filter? field kind = some f) :
    (∀ name, name ∈ f.clauses.map Clause.field ↔ name = field) ∧
      ∀ r, r ∈ f.clauses.flatMap Clause.raws ↔ r ∈ t.raws kind := by
  cases t with
  | equals v =>
    cases kind <;> cases hf <;>
      simp [Filter.clauses, Clause.exactly, Clause.field, Clause.raws, Bound.raws, Test.raws,
        Test.constants]
  | compares op v =>
    cases op <;> cases kind <;> cases hf <;>
      simp [Filter.clauses, Clause.field, Clause.raws, Bound.raws, Test.raws, Test.constants]
  | contains v | startsWith v | endsWith v =>
    cases kind <;> cases hf <;>
      simp [Filter.clauses, Clause.field, Clause.raws, Test.raws, Test.constants]
  | oneOf vs =>
    cases vs with
    | nil => cases kind <;> cases hf
    | cons v vs =>
      cases kind with
      | tag | text =>
        cases hf
        simp [Filter.clauses, Clause.field, Clause.raws, Test.raws, Test.constants]
      | numeric =>
        -- One value is a range of its own; several are an alternative of ranges.
        cases vs <;> cases hf <;>
          simp [Filter.clauses, Clause.exactly, Clause.field, Clause.raws, Bound.raws, Test.raws,
            Test.constants, eq_comm]
      | geo | indexed => cases hf
  | within longitude latitude radius unit =>
    cases kind <;> cases hf
    simp [Filter.clauses, Clause.field, Clause.raws, Test.raws]

/-- **The clauses of a filter are about the fields of its condition**, they write the constants as
they are that the condition names, and the fields may be searched. -/
theorem Filter.Renders.clauses {s : Schema} {f : Filter} {c : Condition} (h : f.Renders s c) :
    (∀ name, name ∈ f.clauses.map Clause.field ↔ name ∈ c.fields) ∧
      (∀ r, r ∈ f.clauses.flatMap Clause.raws ↔ r ∈ c.raws s) ∧
      ∀ name ∈ c.fields, ∃ kind, s.Searches name kind := by
  induction h with
  | @test field kind t f hk hf =>
    obtain ⟨hfields, hraws⟩ := Test.clauses_of_filter? hf
    refine ⟨by simpa [Condition.fields] using hfields, ?_, ?_⟩
    · simpa [Condition.raws_test hk] using hraws
    · intro name hname
      obtain rfl : name = field := by simpa [Condition.fields] using hname
      exact ⟨kind, hk⟩
  | group _ ih | negated _ ih => exact ih
  | both _ _ ihl ihr | either _ _ ihl ihr =>
    obtain ⟨hfl, hrl, hsl⟩ := ihl
    obtain ⟨hfr, hrr, hsr⟩ := ihr
    refine ⟨fun name => ?_, fun r => ?_, fun name hname => ?_⟩
    · rw [Filter.clauses, List.map_append, List.mem_append, hfl, hfr, Condition.fields,
        List.mem_append]
    · rw [Filter.clauses, List.flatMap_append, List.mem_append, hrl, hrr, Condition.raws,
        List.mem_append]
    · rcases List.mem_append.mp hname with hname | hname
      · exact hsl name hname
      · exact hsr name hname

theorem mem_flatMap_heads {cs : List Clause} {name : String} :
    name ∈ cs.flatMap Clause.heads ↔
      name ∈ cs.map Clause.field ∨ ∃ r ∈ cs.flatMap Clause.raws, name ∈ clauseHeads r := by
  constructor
  · intro h
    obtain ⟨c, hc, hname⟩ := List.mem_flatMap.mp h
    rcases List.mem_cons.mp hname with rfl | hname
    · exact .inl (List.mem_map_of_mem hc)
    · obtain ⟨r, hr, hname⟩ := List.mem_flatMap.mp hname
      exact .inr ⟨r, List.mem_flatMap.mpr ⟨c, hc, hr⟩, hname⟩
  · rintro (h | ⟨r, hr, hname⟩)
    · obtain ⟨c, hc, rfl⟩ := List.mem_map.mp h
      exact List.mem_flatMap.mpr ⟨c, hc, List.mem_cons_self⟩
    · obtain ⟨c, hc, hr⟩ := List.mem_flatMap.mp hr
      refine List.mem_flatMap.mpr ⟨c, hc, List.mem_cons_of_mem _ ?_⟩
      exact List.mem_flatMap.mpr ⟨r, hr, hname⟩

/-! ## 7. Compiled texts -/

/-- All the names of a schema are words of the query language. -/
def Schema.NamesWords (s : Schema) : Prop :=
  ∀ name ∈ s.fields.names, IsWord name

instance (s : Schema) : Decidable s.NamesWords :=
  inferInstanceAs (Decidable (∀ name ∈ _, _))

theorem Schema.NamesWords.isWord {s : Schema} (h : s.NamesWords) {name : String} {kind : FieldKind}
    (hk : s.Searches name kind) : IsWord name := by
  obtain ⟨spec, hspec, -⟩ := hk
  refine h name (Decidable.byContradiction fun hmem => ?_)
  rw [field?, NameMap.find?, findNamed?_of_not_mem hmem] at hspec
  cases hspec

/-- **The heads of a compiled text** are the fields of its condition, and the heads of the constants
that are written as they are. -/
theorem Filter.Renders.mem_clauseHeads {s : Schema} {f : Filter} {c : Condition}
    (h : f.Renders s c) (hwords : s.NamesWords) (hraws : ∀ r ∈ c.raws s, ClosesLiterals r)
    (name : String) : name ∈ clauseHeads f.text ↔
      name ∈ c.fields ∨ ∃ r ∈ c.raws s, name ∈ clauseHeads r := by
  obtain ⟨hfields, hrawsIff, hsearches⟩ := h.clauses
  have hword : ∀ c ∈ f.clauses, IsWord c.field := by
    intro clause hc
    obtain ⟨kind, hk⟩ := hsearches _ ((hfields _).mp (List.mem_map_of_mem hc))
    exact hwords.isWord hk
  have hcloses : ∀ c ∈ f.clauses, ∀ r ∈ c.raws, ClosesLiterals r := fun clause hc r hr =>
    hraws r ((hrawsIff r).mp (List.mem_flatMap.mpr ⟨clause, hc, hr⟩))
  rw [(shows_text hword hcloses).clauseHeads_eq, mem_flatMap_heads, hfields]
  simp only [hrawsIff]

/-- A constant that holds the head of another name. -/
def smuggledHead (field : String) : Json :=
  .str (Clause.head (field ++ "_"))

/-- A predicate that tests one field, with that constant. -/
def smuggling (field : String) : Expr :=
  .call "Contains" [.constant (.arr [smuggledHead field]), .member field]

theorem fields_of_says_smuggling {field : String} {c : Condition} (h : (smuggling field).Says c) :
    c.fields = [field] := by
  have hsays : (smuggling field).Says (.test field (.oneOf [smuggledHead field])) :=
    .call (.oneOf (.constant _) (.member _))
  rw [h.unique hsays, Condition.fields]

theorem isWord_underscore {field : String} (h : IsWord field) : IsWord (field ++ "_") := by
  refine ⟨by simp, fun c hc => ?_⟩
  rw [String.toList_append] at hc
  rcases List.mem_append.mp hc with hc | hc
  · exact h.2 c hc
  · rw [List.mem_singleton.mp hc]
    decide

/-- **A searchable numeric or text field lets a constant add a head** of another name. -/
theorem exists_smuggled {s : Schema} (hwords : s.NamesWords) {field : String} {kind : FieldKind}
    (hk : s.Searches field kind) (hkind : kind = .numeric ∨ kind = .text) :
    ∃ t, filterText s (smuggling field) = .ok t ∧ field ++ "_" ∈ clauseHeads t := by
  have hfilter : ∃ f, (Test.oneOf [smuggledHead field]).filter? field kind = some f := by
    rcases hkind with rfl | rfl
    · exact ⟨_, rfl⟩
    · exact ⟨_, rfl⟩
  obtain ⟨f, hf⟩ := hfilter
  have hcompiles : filterText s (smuggling field) = .ok f.text :=
    Compiled.map_eq_ok.mpr ⟨f, Filter.ofCall_eq_ok.mpr
      ⟨field, _, kind, .oneOf (.constant _) (.member _), hk, hf⟩, rfl⟩
  -- both kinds write the constant as it is
  have hraws : (Condition.test field (.oneOf [smuggledHead field])).raws s
      = [Clause.head (field ++ "_")] := by
    rw [Condition.raws_test hk]
    rcases hkind with rfl | rfl <;> rfl
  have hshows : Shows (Clause.head (field ++ "_") ++ "").toList [field ++ "_"] :=
    shows_head (isWord_underscore (hwords.isWord hk)) Silent.nil.shows
  rw [String.append_empty] at hshows
  have hcloses : ClosesLiterals (Clause.head (field ++ "_")) := hshows.closes
  have hheads := (Filter.Renders.test hk hf).mem_clauseHeads hwords
    (by simpa [hraws] using hcloses) (field ++ "_")
  refine ⟨f.text, hcompiles, hheads.mpr (.inr ⟨Clause.head (field ++ "_"), ?_, ?_⟩)⟩
  · rw [hraws, List.mem_singleton]
  · rw [hshows.clauseHeads_eq, List.mem_singleton]

/-- Where only tags and positions can be searched, no constant is written as it is. -/
theorem Condition.raws_eq_nil {s : Schema} {f : Filter} {c : Condition} (h : f.Renders s c)
    (hkinds : ∀ name, ¬ s.Searches name .numeric ∧ ¬ s.Searches name .text) : c.raws s = [] := by
  induction h with
  | @test field kind t f hk hf =>
    rw [Condition.raws_test hk]
    cases kind with
    | numeric => exact absurd hk (hkinds field).1
    | text => exact absurd hk (hkinds field).2
    | _ => cases t <;> rfl
  | group _ ih | negated _ ih => exact ih
  | both _ _ ihl ihr | either _ _ ihl ihr => rw [Condition.raws, ihl, ihr, List.append_nil]

/-- **The clause heads of a compiled text.**  They name the fields of the predicate, all of which may
be searched, and what stands as a head in a constant that is written as it is.  So a schema keeps every
predicate to heads of its own fields exactly if it lets no numeric and no text field be searched. -/
theorem clauseHeads_filterText (s : Schema) (hwords : s.NamesWords) :
    (∀ e t, filterText s e = .ok t → ∃ c, (∀ c', e.Says c' ↔ c' = c) ∧
      (∀ name ∈ c.fields, ∃ kind, s.Searches name kind) ∧
      ((∀ r ∈ c.raws s, ClosesLiterals r) → ∀ name, name ∈ clauseHeads t ↔
        name ∈ c.fields ∨ ∃ r ∈ c.raws s, name ∈ clauseHeads r)) ∧
    ((∀ e t, filterText s e = .ok t → ∀ name ∈ clauseHeads t,
        ∃ c, e.Says c ∧ name ∈ c.fields ∧ ∃ kind, s.Searches name kind) ↔
      ∀ name, ¬ s.Searches name .numeric ∧ ¬ s.Searches name .text) := by
  refine ⟨fun e t h => ?_, ⟨fun hkeeps name => ?_, fun hkinds e t h name hname => ?_⟩⟩
  · obtain ⟨f, hf, rfl⟩ := Compiled.map_eq_ok.mp h
    obtain ⟨c, hc, hrenders⟩ := Filter.build_renders hf
    refine ⟨c, fun c' => ⟨fun hc' => hc'.unique hc, ?_⟩, hrenders.clauses.2.2,
      hrenders.mem_clauseHeads hwords⟩
    rintro rfl
    exact hc
  · have hsafe : ∀ kind, kind = .numeric ∨ kind = .text → ¬ s.Searches name kind := by
      intro kind hkind hk
      obtain ⟨t, ht, hhead⟩ := exists_smuggled hwords hk hkind
      obtain ⟨c, hc, hfield, -⟩ := hkeeps _ t ht _ hhead
      rw [fields_of_says_smuggling hc, List.mem_singleton] at hfield
      have hlength := congrArg String.length hfield
      simp at hlength
    exact ⟨hsafe _ (.inl rfl), hsafe _ (.inr rfl)⟩
  · obtain ⟨f, hf, rfl⟩ := Compiled.map_eq_ok.mp h
    obtain ⟨c, hc, hrenders⟩ := Filter.build_renders hf
    have hraws := Condition.raws_eq_nil hrenders hkinds
    have hheads := hrenders.mem_clauseHeads hwords (by simp [hraws]) name
    have hfield : name ∈ c.fields := by simpa [hraws] using hheads.mp hname
    exact ⟨c, hc, hfield, hrenders.clauses.2.2 name hfield⟩

/-- A schema with a text field, and a tag field that may not be searched. -/
def guardedSchema : Schema :=
  ((Schema.declare (some "people")).withField "bio" .text).withField "secret" FieldSpec.tag.hidden

/-- A text that is looked for, with a clause on the field that may not be searched. -/
def secretPredicate : Expr :=
  .call "Contains" [.member "bio", .constant (.str "x* @secret:\x7by\x7d")]

/-- The text that the predicate compiles to. -/
def secretText : String :=
  "@bio:*x* @secret:\x7by\x7d*"

theorem clauseHeads_filterText_secret :
    guardedSchema.NamesWords ∧ filterText guardedSchema secretPredicate = .ok secretText ∧
      (∀ name, name ∈ clauseHeads secretText ↔ name = "bio" ∨ name = "secret") ∧
      ∀ kind, ¬ guardedSchema.Searches "secret" kind := by
  have hwords : guardedSchema.NamesWords := by decide
  have hcompiles : filterText guardedSchema secretPredicate = .ok secretText := by rfl
  have hsays : secretPredicate.Says (.test "bio" (.contains (.str "x* @secret:\x7by\x7d"))) :=
    .call (.contains (.member _) (.constant _))
  obtain ⟨c, hc, -, hheads⟩ := (clauseHeads_filterText guardedSchema hwords).1 _ _ hcompiles
  obtain rfl := (hc _).mp hsays
  have hraws : (Condition.test "bio" (.contains (.str "x* @secret:\x7by\x7d"))).raws guardedSchema
      = ["x* @secret:\x7by\x7d"] := rfl
  have hsecret : clauseHeads "x* @secret:\x7by\x7d" = ["secret"] := by decide
  refine ⟨hwords, hcompiles, fun name => ?_, fun kind => ?_⟩
  · rw [hheads (by rw [hraws]; simp only [List.mem_singleton, forall_eq]; decide) name, hraws]
    simp [Condition.fields, hsecret]
  · cases kind <;> decide

end IndexQuery
