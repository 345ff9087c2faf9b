import SchemaPlan.Proofs.Text.Search
import SchemaPlan.Proofs.Traversal
import SchemaPlan.Proofs.Version.Numerals
import SchemaPlan.Version.Json

/-!
# Which texts are versions

A text is a version exactly if it consists of runs of digits with one separator between two of them
(`Runs`); its components are the numerals of the numbers that the runs denote. Any other text has a
leftmost part between separators that is no run of digits (`FirstFlaw`), and that part decides what
is reported. Both are tied to the list of parts of the text (`runs_iff`, `firstFlaw_iff`), which is
not changed by writing `.` for `_`, so the text of a version is read as the same version.
-/

namespace SchemaPlan

theorem Text.exchange_exchange (old new : Char) (s : List Char) :
    exchange old new (exchange old new s) = exchange old new s := by
  unfold exchange
  rw [List.map_map]
  refine List.map_congr_left fun c _ => ?_
  by_cases h : c = old <;> simp [h]

namespace Version

/-! ### Parts between separators -/

/-- Whether a character stands between the components of a version. -/
def isSeparator (c : Char) : Bool := c = '.' || c = '_'

/-- The parts of a text between its separators. -/
def parts (s : List Char) : List (List Char) := s.splitOnP isSeparator

variable {s part run : List Char} {runs : List (List Char)} {c : Char}

theorem parts_of_forall (h : ∀ c ∈ part, isSeparator c = false) : parts part = [part] :=
  List.splitOnP_eq_singleton h

theorem parts_append_cons (h : ∀ c ∈ part, isSeparator c = false) (hc : isSeparator c = true)
    (rest : List Char) : parts (part ++ c :: rest) = part :: parts rest :=
  List.splitOnP_append_cons_of_forall_mem h c hc rest

/-- Writing `.` for `_` keeps the parts. -/
theorem splitOnP_exchange (s : List Char) :
    (Text.exchange '_' '.' s).splitOnP (· == '.') = parts s := by
  induction s with
  | nil => rfl
  | cons c s ih =>
    unfold Text.exchange parts at ih ⊢
    rw [List.map_cons, List.splitOnP_cons_eq_if_modifyHead, List.splitOnP_cons_eq_if_modifyHead, ih]
    by_cases hdot : c = '.' <;> by_cases hlow : c = '_' <;> simp [isSeparator, hdot, hlow]

theorem parts_exchange (s : List Char) : parts (Text.exchange '_' '.' s) = parts s := by
  rw [← splitOnP_exchange, Text.exchange_exchange, splitOnP_exchange]

/-! ### Runs of digits -/

/-- One or more digits. -/
def IsRun (part : List Char) : Prop := part ≠ [] ∧ ∀ c ∈ part, c.isDigit = true

theorem IsRun.not_separator (h : IsRun run) : ∀ c ∈ run, isSeparator c = false := by
  intro c hc
  have hdigit := h.2 c hc
  rw [Bool.eq_false_iff]
  intro hsep
  rcases Bool.or_eq_true_iff.1 hsep with hdot | hlow
  · rw [of_decide_eq_true hdot] at hdigit
    exact absurd hdigit (by decide)
  · rw [of_decide_eq_true hlow] at hdigit
    exact absurd hdigit (by decide)

/-- `Runs s runs`: the text `s` consists of the runs of digits `runs`, with one separator between
two of them. -/
inductive Runs : List Char → List (List Char) → Prop where
  /-- A run of digits alone. -/
  | last {run : List Char} : IsRun run → Runs run [run]
  /-- A run of digits, a separator, and more runs. -/
  | more {run rest : List Char} {c : Char} {runs : List (List Char)} :
      IsRun run → isSeparator c = true → Runs rest runs → Runs (run ++ c :: rest) (run :: runs)

/-- `FirstFlaw s part`: in the text `s` runs of digits stand before `part`, which goes up to the
next separator or to the end and is no run of digits. -/
inductive FirstFlaw : List Char → List Char → Prop where
  /-- No separator follows. -/
  | last {part : List Char} :
      (∀ c ∈ part, isSeparator c = false) → ¬ IsRun part → FirstFlaw part part
  /-- A separator follows. -/
  | here {part rest : List Char} {c : Char} :
      (∀ c ∈ part, isSeparator c = false) → ¬ IsRun part → isSeparator c = true →
      FirstFlaw (part ++ c :: rest) part
  /-- A run of digits and a separator stand before the rest of the text. -/
  | later {run rest part : List Char} {c : Char} :
      IsRun run → isSeparator c = true → FirstFlaw rest part → FirstFlaw (run ++ c :: rest) part

theorem runs_iff : Runs s runs ↔ parts s = runs ∧ ∀ run ∈ runs, IsRun run := by
  constructor
  · intro h
    induction h with
    | last hrun => exact ⟨parts_of_forall hrun.not_separator, by simpa using hrun⟩
    | more hrun hc _ ih =>
      rw [parts_append_cons hrun.not_separator hc, ih.1]
      exact ⟨rfl, List.forall_mem_cons.2 ⟨hrun, ih.2⟩⟩
  · rintro ⟨rfl, hruns⟩
    induction s using Text.splitOnP_induction (p := isSeparator) with
    | last part hpart =>
      rw [parts_of_forall hpart] at hruns ⊢
      exact .last (hruns part List.mem_cons_self)
    | more part c rest hpart hc ih =>
      rw [parts_append_cons hpart hc] at hruns ⊢
      obtain ⟨hrun, hruns⟩ := List.forall_mem_cons.1 hruns
      exact .more hrun hc (ih hruns)

theorem firstFlaw_iff :
    FirstFlaw s part ↔ ∃ before after, parts s = before ++ part :: after ∧
      (∀ run ∈ before, IsRun run) ∧ ¬ IsRun part := by
  constructor
  · intro h
    induction h with
    | last hpart hflaw => exact ⟨[], [], parts_of_forall hpart, by simp, hflaw⟩
    | here hpart hflaw hc => exact ⟨[], _, parts_append_cons hpart hc _, by simp, hflaw⟩
    | later hrun hc _ ih =>
      obtain ⟨before, after, hparts, hbefore, hflaw⟩ := ih
      refine ⟨_ :: before, after, ?_, List.forall_mem_cons.2 ⟨hrun, hbefore⟩, hflaw⟩
      rw [parts_append_cons hrun.not_separator hc, hparts, List.cons_append]
  · rintro ⟨before, after, hparts, hbefore, hflaw⟩
    induction s using Text.splitOnP_induction (p := isSeparator) generalizing before with
    | last p hp =>
      rw [parts_of_forall hp] at hparts
      cases before with
      | nil =>
        obtain ⟨rfl, -⟩ := List.cons.inj hparts
        exact .last hp hflaw
      | cons b before => simp at hparts
    | more p c rest hp hc ih =>
      rw [parts_append_cons hp hc] at hparts
      cases before with
      | nil =>
        obtain ⟨rfl, -⟩ := List.cons.inj hparts
        exact .here hp hflaw hc
      | cons b before =>
        obtain ⟨rfl, hrest⟩ := List.cons.inj hparts
        obtain ⟨hrun, hbefore⟩ := List.forall_mem_cons.1 hbefore
        exact .later hrun hc (ih before hrest hbefore)

/-! ### Reading -/

variable {text name : String} {e : PlanError} {v : Version}

/-- The version that a text denotes by its runs of digits. -/
def ofRuns (text : String) (runs : List (List Char)) : Version where
  components := runs.map fun run => toString (Nat.ofDigitChars 10 run 0)
  text := String.ofList (Text.exchange '_' '.' text.toList)

/-- What is said about a text whose first flaw is the given part. -/
def complaint (text : String) (part : List Char) : String :=
  if text = "" then "version is empty"
  else if part = [] then "version contains an empty component"
  else s!"component '{String.ofList part}' is not a non-negative integer"

theorem parseComponent_eq_ok_iff :
    parseComponent text part = .ok name ↔
      IsRun part ∧ toString (Nat.ofDigitChars 10 part 0) = name := by
  unfold parseComponent
  by_cases hnil : part = []
  · subst hnil
    exact iff_of_false (by rintro ⟨⟩) fun h => h.1.1 rfl
  rw [if_neg (by simpa using hnil)]
  by_cases hdigits : ∀ c ∈ part, c.isDigit = true
  · rw [if_pos (List.all_eq_true.2 hdigits), numeral_eq_toDigits hdigits,
      ← Nat.toString_eq_ofList_toDigits, Except.ok.injEq]
    exact (and_iff_right ⟨hnil, hdigits⟩).symm
  · rw [if_neg (fun hall => hdigits (List.all_eq_true.1 hall))]
    exact iff_of_false (by rintro ⟨⟩) fun h => hdigits h.1.2

theorem parseComponent_eq_error_iff (htext : text ≠ "") :
    parseComponent text part = .error e ↔
      ¬ IsRun part ∧ e = .invalidVersion text (complaint text part) := by
  unfold parseComponent complaint
  rw [if_neg htext]
  by_cases hnil : part = []
  · subst hnil
    exact ⟨fun h => ⟨fun hrun => hrun.1 rfl, by cases h; rfl⟩, fun h => h.2 ▸ rfl⟩
  rw [if_neg (by simpa using hnil), if_neg hnil]
  by_cases hdigits : ∀ c ∈ part, c.isDigit = true
  · rw [if_pos (List.all_eq_true.2 hdigits)]
    exact iff_of_false (by rintro ⟨⟩) fun h => h.1 ⟨hnil, hdigits⟩
  · rw [if_neg (fun hall => hdigits (List.all_eq_true.1 hall))]
    exact ⟨fun h => ⟨fun hrun => hdigits hrun.2, by cases h; rfl⟩, fun h => h.2 ▸ rfl⟩

theorem parse_of_ne (htext : text ≠ "") :
    parse text = ((parts text.toList).mapM (parseComponent text)).map fun components =>
      ⟨components, String.ofList (Text.exchange '_' '.' text.toList)⟩ := by
  have hcanonical : (Text.exchange '_' '.' text.toList).isEmpty = false := by
    simpa [Text.exchange] using htext
  simp only [parse, hcanonical, Bool.false_eq_true, if_false, splitOnP_exchange]
  rfl

theorem mapM_parseComponent_eq_ok_iff {components : List String} :
    runs.mapM (parseComponent text) = .ok components ↔
      (∀ run ∈ runs, IsRun run) ∧
        runs.map (fun run => toString (Nat.ofDigitChars 10 run 0)) = components := by
  simp only [Traversal.mapM_eq_ok_iff, parseComponent_eq_ok_iff]
  rw [List.forall₂_and_left, ← List.forall₂_eq_eq_eq, List.forall₂_map_left_iff]

theorem parse_eq_ok_iff :
    parse text = .ok v ↔ ∃ runs, Runs text.toList runs ∧ v = ofRuns text runs := by
  simp only [runs_iff]
  by_cases htext : text = ""
  · subst htext
    refine iff_of_false (by rintro ⟨⟩) ?_
    rintro ⟨runs, ⟨rfl, hruns⟩, -⟩
    exact (hruns [] List.mem_cons_self).1 rfl
  rw [parse_of_ne htext, Traversal.map_eq_ok_iff]
  simp only [mapM_parseComponent_eq_ok_iff]
  constructor
  · rintro ⟨components, ⟨hruns, rfl⟩, rfl⟩
    exact ⟨_, ⟨rfl, hruns⟩, rfl⟩
  · rintro ⟨runs, ⟨rfl, hruns⟩, rfl⟩
    exact ⟨_, ⟨hruns, rfl⟩, rfl⟩

theorem parse_eq_error_iff :
    parse text = .error e ↔
      ∃ part, FirstFlaw text.toList part ∧ e = .invalidVersion text (complaint text part) := by
  by_cases htext : text = ""
  · subst htext
    refine ⟨fun h => ⟨[], .last (by simp) fun hrun => hrun.1 rfl, ?_⟩, fun ⟨_, _, he⟩ => he ▸ rfl⟩
    cases h
    rfl
  rw [parse_of_ne htext, Traversal.map_eq_error_iff, Traversal.mapM_eq_error_iff]
  simp only [firstFlaw_iff, parseComponent_eq_error_iff htext, parseComponent_eq_ok_iff]
  constructor
  · rintro ⟨before, part, after, hparts, hbefore, hflaw, he⟩
    exact ⟨part, ⟨before, after, hparts, fun run hrun => (hbefore run hrun).choose_spec.1, hflaw⟩,
      he⟩
  · rintro ⟨part, ⟨before, after, hparts, hbefore, hflaw⟩, he⟩
    exact ⟨before, part, after, hparts, fun run hrun => ⟨_, hbefore run hrun, rfl⟩, hflaw, he⟩

/-- The text of a version has the same runs of digits as what it was read from. -/
theorem ofRuns_canonical (text : String) (runs : List (List Char)) :
    ofRuns (ofRuns text runs).text runs = ofRuns text runs := by
  simp only [ofRuns, String.toList_ofList, Text.exchange_exchange]

theorem parse_text (h : parse text = .ok v) : parse v.text = .ok v := by
  obtain ⟨runs, hruns, rfl⟩ := parse_eq_ok_iff.1 h
  refine parse_eq_ok_iff.2 ⟨runs, ?_, (ofRuns_canonical text runs).symm⟩
  rw [runs_iff] at hruns ⊢
  rw [ofRuns, String.toList_ofList, parts_exchange]
  exact hruns

theorem ofJson_toJson (h : parse text = .ok v) : ofJson v.toJson = .ok v :=
  congrArg (Except.mapError JsonError.noVersion) (parse_text h)

/-- **Grammar of versions**: a text is read as a version exactly if it consists of runs of digits
with one separator between two of them, and then as the version of these runs. Any other text is
refused for its first flaw. What was read is read again from its text and from its JSON value. -/
theorem parse_grammar (text : String) :
    (∀ v, parse text = .ok v ↔ ∃ runs, Runs text.toList runs ∧ v = ofRuns text runs) ∧
      (∀ e, parse text = .error e ↔ ∃ part, FirstFlaw text.toList part ∧
        e = .invalidVersion text (complaint text part)) ∧
      ∀ v, parse text = .ok v → parse v.text = .ok v ∧ ofJson v.toJson = .ok v :=
  ⟨fun _ => parse_eq_ok_iff, fun _ => parse_eq_error_iff,
    fun _ h => ⟨parse_text h, ofJson_toJson h⟩⟩

theorem parse_grammar_zeros :
    parse "0_01.000" = .ok ⟨["0", "1", "0"], "0.01.000"⟩ ∧
      parse "0.01.000" = .ok ⟨["0", "1", "0"], "0.01.000"⟩ ∧
      ofJson (.text "0.01.000") = .ok ⟨["0", "1", "0"], "0.01.000"⟩ :=
  have h : parse "0_01.000" = .ok ⟨["0", "1", "0"], "0.01.000"⟩ := by decide
  ⟨h, (parse_grammar "0_01.000").2.2 _ h⟩

example : parse "1.x..2" =
    .error (.invalidVersion "1.x..2" "component 'x' is not a non-negative integer") := by decide

end Version

end SchemaPlan
