import Mathlib.Logic.Relation
import Mathlib.Tactic.SplitIfs
import SchemaPlan.Proofs.Checksum.Resaving
import SchemaPlan.Proofs.Text.Occurrence

/-!
# Checksums by lines

A text is made of runs of characters between terminators (`runs`). Its lines are these runs and
empty lines (`filled_lines`), so a checksum by lines is one of what is left without terminators
(`textChecksum_lines`), and one by trimmed lines is one of the trimmed runs
(`textChecksum_trimmedLines`). Edits between lines keep the runs (`LineEdit.runs_eq`), and blanks at
the edge of a line keep the trimmed runs (`BlankEdit.trimmedRuns_eq`).
-/

namespace SchemaPlan

namespace Text

variable {s t a b w : List Char} {c : Char}

/-! ### Runs between terminators -/

/-- Whether a character ends a line, alone or with another one. -/
def isTerminator (c : Char) : Bool := c = '\r' || c = '\n'

/-- The maximal runs of a text that hold no terminator, from left to right. -/
def runs (s : List Char) : List (List Char) := filled (s.splitOnP isTerminator)

theorem isTerminator_iff : isTerminator c ↔ c ∈ ['\r', '\n'] := by
  simp [isTerminator]

theorem runs_append_cons (hc : isTerminator c) (a b : List Char) :
    runs (a ++ c :: b) = runs a ++ runs b := by
  rw [runs, List.splitOnP_append_cons a b hc]
  exact List.filter_append _ _

theorem runs_of_forall (h : ∀ c ∈ s, isTerminator c = false) : runs s = filled [s] := by
  rw [runs, List.splitOnP_eq_singleton h]

theorem filledFrom_append (h : ∀ c ∈ a, isTerminator c = false) (line s : List Char) :
    filledFrom line (a ++ s) = filledFrom (a.reverse ++ line) s := by
  induction a generalizing line with
  | nil => rfl
  | cons c a ih =>
    obtain ⟨hc, ha⟩ := List.forall_mem_cons.1 h
    have hplain : c ∉ ['\r', '\n'] := fun hmem => by
      rw [isTerminator_iff.2 hmem] at hc
      cases hc
    rw [List.cons_append, filledFrom_plain hplain, ih ha, List.reverse_cons, List.append_assoc]
    rfl

/-- The lines of a text are its runs, and empty lines. -/
theorem filled_lines (s : List Char) : filled (lines s) = runs s := by
  show filledFrom [] s = runs s
  induction s using splitOnP_induction (p := isTerminator) with
  | last part hpart =>
    rw [← List.append_nil part, filledFrom_append hpart, filledFrom_nil, List.append_nil,
      List.append_nil, List.reverse_reverse, runs_of_forall hpart]
  | more part c rest hpart hc ih =>
    rw [filledFrom_append hpart, filledFrom_end (isTerminator_iff.1 hc), ih, List.append_nil,
      List.reverse_reverse, runs_append_cons hc, runs_of_forall hpart]

/-- What is made of the runs one by one may be made of the parts between terminators. -/
theorem flatMap_runs_of_forall {β : Type} {f : List Char → List β} (hf : f [] = [])
    (h : ∀ c ∈ s, isTerminator c = false) : (runs s).flatMap f = f s := by
  rw [runs_of_forall h, flatMap_filled hf, List.flatMap_singleton]

/-- The runs are what is left of a text without its terminators. -/
theorem flatten_runs (s : List Char) : (runs s).flatten = s.filter (!isTerminator ·) := by
  have hkeep : ∀ part : List Char, (∀ c ∈ part, isTerminator c = false) →
      (runs part).flatten = part.filter (!isTerminator ·) := fun part hpart => by
    rw [← List.flatMap_id, flatMap_runs_of_forall rfl hpart]
    exact (List.filter_eq_self.2 fun c hc => by rw [hpart c hc]; rfl).symm
  induction s using splitOnP_induction (p := isTerminator) with
  | last part hpart => exact hkeep part hpart
  | more part c rest hpart hc ih =>
    rw [runs_append_cons hc, List.flatten_append, hkeep part hpart, ih, List.filter_append,
      List.filter_cons_of_neg (by rw [hc]; decide)]

/-! ### Edits between lines -/

/-- The first text ends where a line ends, or the second one begins where a line begins. -/
def AtLineEdge (a b : List Char) : Prop :=
  (∀ c ∈ a.getLast?, isTerminator c) ∨ ∀ c ∈ b.head?, isTerminator c

theorem runs_terminator {e : List Char} (he : e ∈ terminators) (a b : List Char) :
    runs (a ++ e ++ b) = runs a ++ runs b := by
  simp only [terminators, List.mem_cons, List.not_mem_nil, or_false] at he
  rcases he with rfl | rfl | rfl
  · rw [List.append_assoc]
    exact runs_append_cons rfl a b
  · have hpair : a ++ ['\r', '\n'] ++ b = a ++ '\r' :: ([] ++ '\n' :: b) := by simp
    rw [hpair, runs_append_cons rfl, runs_append_cons rfl]
    rfl
  · rw [List.append_assoc]
    exact runs_append_cons rfl a b

theorem runs_append_of_getLast? (h : ∀ c ∈ a.getLast?, isTerminator c) (s : List Char) :
    runs (a ++ s) = runs a ++ runs s := by
  rcases List.eq_nil_or_concat' a with rfl | ⟨front, c, rfl⟩
  · rfl
  · have hc : isTerminator c := h c (by simp)
    rw [List.append_assoc, List.singleton_append, runs_append_cons hc, runs_append_cons hc]
    exact congrArg (· ++ runs s) (List.append_nil (runs front)).symm

theorem runs_append_of_head? (h : ∀ c ∈ b.head?, isTerminator c) (s : List Char) :
    runs (s ++ b) = runs s ++ runs b := by
  cases b with
  | nil => rw [List.append_nil]; exact (List.append_nil (runs s)).symm
  | cons c b =>
    have hc : isTerminator c := h c rfl
    have hb : runs (c :: b) = runs b := runs_append_cons hc [] b
    rw [runs_append_cons hc, hb]

/-- An edit that leaves the lines as they are, apart from empty ones. -/
inductive LineEdit : List Char → List Char → Prop where
  /-- A terminator becomes another one. -/
  | terminator {a b e e' : List Char} : e ∈ terminators → e' ∈ terminators →
    LineEdit (a ++ e ++ b) (a ++ e' ++ b)
  /-- An empty line is put in at the edge of a line. -/
  | emptyLine {a b e : List Char} : e ∈ terminators → AtLineEdge a b →
    LineEdit (a ++ b) (a ++ e ++ b)

/-- An edit that leaves the lines as they are, apart from empty ones and blanks around them. -/
inductive BlankEdit : List Char → List Char → Prop where
  /-- The lines stay as they are. -/
  | line {s t : List Char} : LineEdit s t → BlankEdit s t
  /-- Blanks are put in at the edge of a line. -/
  | blanks {a b w : List Char} : (∀ c ∈ w, isBlank c) → AtLineEdge a b →
    BlankEdit (a ++ b) (a ++ w ++ b)

theorem LineEdit.runs_eq (h : LineEdit s t) : runs s = runs t := by
  cases h with
  | terminator he he' => rw [runs_terminator he, runs_terminator he']
  | @emptyLine a b e he hedge =>
    rw [runs_terminator he]
    rcases hedge with hlast | hhead
    · exact runs_append_of_getLast? hlast b
    · exact runs_append_of_head? hhead a

/-- What each edit keeps is kept by any number of edits, done or undone. -/
theorem eq_of_edits {β : Type} {edit : List Char → List Char → Prop} {f : List Char → β}
    (hedit : ∀ {s t}, edit s t → f s = f t) (h : Relation.EqvGen edit s t) : f s = f t := by
  induction h with
  | rel _ _ h => exact hedit h
  | refl => rfl
  | symm _ _ _ ih => exact ih.symm
  | trans _ _ _ _ _ ih ih' => exact ih.trans ih'

/-! ### Trimmed runs -/

/-- The runs of a text without blanks at either end, put together. -/
def trimmedRuns (s : List Char) : List Char := (runs s).flatMap trimList

theorem trimmedRuns_of_forall (h : ∀ c ∈ s, isTerminator c = false) :
    trimmedRuns s = trimList s :=
  flatMap_runs_of_forall rfl h

theorem trimmedRuns_append_cons (hc : isTerminator c) (a b : List Char) :
    trimmedRuns (a ++ c :: b) = trimmedRuns a ++ trimmedRuns b := by
  rw [trimmedRuns, runs_append_cons hc]
  exact List.flatMap_append

theorem trimList_cons (hc : isBlank c) (s : List Char) : trimList (c :: s) = trimList s := by
  rw [trimList, List.dropWhile_cons_of_pos hc]
  rfl

theorem trimList_append_singleton (hc : isBlank c) (s : List Char) :
    trimList (s ++ [c]) = trimList s := by
  unfold trimList
  rw [List.dropWhile_append]
  split
  · next hempty => rw [List.isEmpty_iff.1 hempty, List.dropWhile_cons_of_pos hc]; rfl
  · rw [List.reverse_append, List.reverse_singleton, List.singleton_append,
      List.dropWhile_cons_of_pos hc]

theorem trimmedRuns_cons (hc : isBlank c) (s : List Char) :
    trimmedRuns (c :: s) = trimmedRuns s := by
  by_cases hend : isTerminator c = true
  · exact trimmedRuns_append_cons hend [] s
  have hplain : ∀ part : List Char, (∀ d ∈ part, isTerminator d = false) →
      trimmedRuns (c :: part) = trimmedRuns part := fun part hpart => by
    rw [trimmedRuns_of_forall hpart, trimmedRuns_of_forall, trimList_cons hc]
    exact List.forall_mem_cons.2 ⟨Bool.eq_false_iff.2 hend, hpart⟩
  induction s using splitOnP_induction (p := isTerminator) with
  | last part hpart => exact hplain part hpart
  | more part d rest hpart hd _ =>
    rw [← List.cons_append, trimmedRuns_append_cons hd, trimmedRuns_append_cons hd,
      hplain part hpart]

theorem trimmedRuns_append_singleton (hc : isBlank c) (s : List Char) :
    trimmedRuns (s ++ [c]) = trimmedRuns s := by
  by_cases hend : isTerminator c = true
  · rw [trimmedRuns_append_cons hend]
    exact List.append_nil _
  induction s using splitOnP_induction (p := isTerminator) with
  | last part hpart =>
    rw [trimmedRuns_of_forall hpart, trimmedRuns_of_forall, trimList_append_singleton hc]
    exact List.forall_mem_append.2 ⟨hpart, by simpa using hend⟩
  | more part d rest hpart hd ih =>
    rw [List.append_assoc, List.cons_append, trimmedRuns_append_cons hd, ih,
      trimmedRuns_append_cons hd]

theorem trimmedRuns_blanks_append (hw : ∀ c ∈ w, isBlank c) (s : List Char) :
    trimmedRuns (w ++ s) = trimmedRuns s := by
  induction w with
  | nil => rfl
  | cons c w ih =>
    obtain ⟨hc, hw⟩ := List.forall_mem_cons.1 hw
    rw [List.cons_append, trimmedRuns_cons hc, ih hw]

theorem trimmedRuns_append_blanks (hw : ∀ c ∈ w, isBlank c) (s : List Char) :
    trimmedRuns (s ++ w) = trimmedRuns s := by
  induction w generalizing s with
  | nil => rw [List.append_nil]
  | cons c w ih =>
    obtain ⟨hc, hw⟩ := List.forall_mem_cons.1 hw
    rw [List.append_cons, ih hw, trimmedRuns_append_singleton hc]

theorem BlankEdit.trimmedRuns_eq (h : BlankEdit s t) : trimmedRuns s = trimmedRuns t := by
  cases h with
  | line h => rw [trimmedRuns, h.runs_eq, trimmedRuns]
  | @blanks a b w hw hedge =>
    rcases hedge with hlast | hhead
    · have hsplit : ∀ s, trimmedRuns (a ++ s) = trimmedRuns a ++ trimmedRuns s := fun s => by
        rw [trimmedRuns, runs_append_of_getLast? hlast]
        exact List.flatMap_append
      rw [List.append_assoc, hsplit, hsplit, trimmedRuns_blanks_append hw]
    · have hsplit : ∀ s, trimmedRuns (s ++ b) = trimmedRuns s ++ trimmedRuns b := fun s => by
        rw [trimmedRuns, runs_append_of_head? hhead]
        exact List.flatMap_append
      rw [hsplit, hsplit, trimmedRuns_append_blanks hw]

/-! ### Bytes -/

/-- Some bytes without line feeds and carriage returns. -/
def withoutTerminators (bytes : List UInt8) : List UInt8 :=
  bytes.filter fun b => b ≠ 0x0A ∧ b ≠ 0x0D

/-- No byte of a character that ends no line is that of one that does. -/
theorem withoutTerminators_encodeChar (hc : isTerminator c = false) :
    withoutTerminators (String.utf8EncodeChar c) = String.utf8EncodeChar c := by
  have hbyte : ∀ n < 256, n ≠ 0x0A → n ≠ 0x0D → UInt8.ofNat n ≠ 0x0A ∧ UInt8.ofNat n ≠ 0x0D := by
    intro n hn hfeed hreturn
    rw [← UInt8.toNat_inj.ne, ← UInt8.toNat_inj.ne, toNat_byte hn]
    exact ⟨hfeed, hreturn⟩
  have hval : c.val.toNat ≠ 0x0A ∧ c.val.toNat ≠ 0x0D := by
    rw [isTerminator, Bool.or_eq_false_iff, decide_eq_false_iff_not, decide_eq_false_iff_not] at hc
    exact ⟨fun h => hc.2 (Char.ext (UInt32.toNat_inj.1 h)),
      fun h => hc.1 (Char.ext (UInt32.toNat_inj.1 h))⟩
  refine List.filter_eq_self.2 fun b hb => decide_eq_true ?_
  unfold String.utf8EncodeChar at hb
  generalize c.val.toNat = v at hval hb
  simp only at hb
  split_ifs at hb <;> simp only [List.mem_cons, List.not_mem_nil, or_false] at hb
  · subst hb
    exact hbyte v (by omega) hval.1 hval.2
  · rcases hb with rfl | rfl <;> exact hbyte _ (by omega) (by omega) (by omega)
  · rcases hb with rfl | rfl | rfl <;> exact hbyte _ (by omega) (by omega) (by omega)
  · rcases hb with rfl | rfl | rfl | rfl <;> exact hbyte _ (by omega) (by omega) (by omega)

theorem encode_filter (s : List Char) :
    encode (s.filter (!isTerminator ·)) = withoutTerminators (encode s) := by
  induction s with
  | nil => rfl
  | cons c s ih =>
    rw [encode_cons, withoutTerminators, List.filter_append]
    cases hc : isTerminator c with
    | true =>
      rw [List.filter_cons_of_neg (by simp [hc]), ih]
      rcases Bool.or_eq_true_iff.1 hc with h | h
      · rw [of_decide_eq_true h]; rfl
      · rw [of_decide_eq_true h]; rfl
    | false =>
      rw [List.filter_cons_of_pos (by simp [hc]), encode_cons, ih]
      exact congrArg (· ++ _) (withoutTerminators_encodeChar hc).symm

/-- Valid bytes are those of a text. -/
theorem isValidUTF8_iff {bytes : List UInt8} :
    bytes.toByteArray.IsValidUTF8 ↔ ∃ text, bytes = bytesOf text := by
  constructor
  · rintro ⟨s, hs⟩
    refine ⟨String.ofList s, ?_⟩
    rw [bytesOf, String.toList_ofList]
    exact List.toByteArray_inj.1 hs
  · rintro ⟨text, rfl⟩
    exact ⟨text.toList, rfl⟩

end Text

namespace ChecksumPolicy

/-- By lines, a checksum is one of the bytes without terminators. -/
theorem textChecksum_lines (text : String) :
    lines.textChecksum text = checksumOfBytes (Text.withoutTerminators (Text.bytesOf text)) := by
  show checksumLines (Text.lines text.toList) = _
  rw [checksumLines_eq, ← flatMap_filled rfl, Text.filled_lines, Text.bytesOf,
    ← Text.encode_filter, ← Text.flatten_runs, List.flatten_eq_flatMap]
  exact congrArg checksumOfBytes List.flatMap_assoc.symm

/-- By trimmed lines, a checksum is one of the trimmed runs. -/
theorem textChecksum_trimmedLines (text : String) :
    trimmedLines.textChecksum text =
      checksumOfBytes (Text.encode (Text.trimmedRuns text.toList)) := by
  show checksumLines ((Text.lines text.toList).map Text.trimList) = _
  rw [checksumLines_eq, List.flatMap_map, ← flatMap_filled rfl, Text.filled_lines]
  exact congrArg checksumOfBytes List.flatMap_assoc.symm

theorem bytesChecksum_bytesOf (policy : ChecksumPolicy) (text location : String) :
    policy.bytesChecksum (Text.bytesOf text) location = .ok (policy.textChecksum text) := by
  have hdecode : Text.decodeText (Text.bytesOf text) = .ok text := Text.decodeText_eq_ok_iff.2 rfl
  cases policy with
  | rawBytes => rfl
  | _ => simp only [bytesChecksum, hdecode]

/-- What is no text has no checksum by lines, and the error names its location. -/
theorem bytesChecksum_eq_error {policy : ChecksumPolicy} (hpolicy : policy ≠ .rawBytes)
    {content : List UInt8} (hcontent : ¬ content.toByteArray.IsValidUTF8) (location : String) :
    ∃ fault, Text.decodeText content = .error fault ∧ policy.bytesChecksum content location =
      .error (.content location
        s!"unable to calculate checksum, content is not valid UTF-8: {fault.message}") := by
  cases hdecode : Text.decodeText content with
  | ok text =>
    exact absurd (Text.isValidUTF8_iff.2 ⟨text, Text.decodeText_eq_ok_iff.1 hdecode⟩) hcontent
  | error fault =>
    refine ⟨fault, rfl, ?_⟩
    cases policy with
    | rawBytes => exact absurd rfl hpolicy
    | _ => simp only [bytesChecksum, hdecode]

/-- **Checksums by lines** are checksums of the bytes without terminators, and those by trimmed
lines are checksums of the trimmed runs between terminators. So neither sees which terminators a
text has and how many of its lines are empty, and the latter does not see blanks at the edge of a
line. Content has the checksum of the text that it encodes; content that is no text is an error that
names its location. -/
theorem textChecksum_by_lines :
    (∀ text, lines.textChecksum text =
        checksumOfBytes (Text.withoutTerminators (Text.bytesOf text))) ∧
      (∀ text, trimmedLines.textChecksum text = checksumOfBytes
        (Text.encode ((Text.runs text.toList).flatMap Text.trimList))) ∧
      (∀ text text' : String, Relation.EqvGen Text.LineEdit text.toList text'.toList →
        ∀ policy ≠ rawBytes, policy.textChecksum text = policy.textChecksum text') ∧
      (∀ text text' : String, Relation.EqvGen Text.BlankEdit text.toList text'.toList →
        trimmedLines.textChecksum text = trimmedLines.textChecksum text') ∧
      (∀ (policy : ChecksumPolicy) (text location : String),
        policy.bytesChecksum (Text.bytesOf text) location = .ok (policy.textChecksum text)) ∧
      ∀ policy ≠ rawBytes, ∀ (content : List UInt8) (location : String),
        ¬ content.toByteArray.IsValidUTF8 ↔ ∃ fault, Text.decodeText content = .error fault ∧
          policy.bytesChecksum content location = .error (.content location
            s!"unable to calculate checksum, content is not valid UTF-8: {fault.message}") := by
  refine ⟨textChecksum_lines, textChecksum_trimmedLines, fun text text' h policy hpolicy => ?_,
    fun text text' h => ?_, bytesChecksum_bytesOf, fun policy hpolicy content location => ?_⟩
  · refine textChecksum_eq_of_filled hpolicy ?_
    rw [Text.filled_lines, Text.filled_lines]
    exact Text.eq_of_edits Text.LineEdit.runs_eq h
  · have hruns : Text.trimmedRuns text.toList = Text.trimmedRuns text'.toList :=
      Text.eq_of_edits Text.BlankEdit.trimmedRuns_eq h
    rw [textChecksum_trimmedLines, textChecksum_trimmedLines, hruns]
  · refine ⟨fun hcontent => bytesChecksum_eq_error hpolicy hcontent location, ?_⟩
    rintro ⟨fault, hfault, -⟩ hvalid
    obtain ⟨text, rfl⟩ := Text.isValidUTF8_iff.1 hvalid
    rw [Text.decodeText_eq_ok_iff.2 rfl] at hfault
    cases hfault

theorem textChecksum_by_lines_mixedTerminators :
    lines.textChecksum "a\r\n b" = lines.textChecksum "a\n\r b" ∧
      trimmedLines.textChecksum "a\r\n b" = trimmedLines.textChecksum "a\t\r\nb" ∧
      ¬ ([0x61, 0xFF] : List UInt8).toByteArray.IsValidUTF8 := by
  obtain ⟨-, -, hlines, htrimmed, -, hvalid⟩ := textChecksum_by_lines
  have hterminator : Text.LineEdit "a\r\n b".toList "a\n b".toList :=
    @Text.LineEdit.terminator ['a'] [' ', 'b'] ['\r', '\n'] ['\n'] (by decide) (by decide)
  have hempty : Text.LineEdit "a\n b".toList "a\n\r b".toList :=
    .emptyLine (a := ['a', '\n']) (e := ['\r']) (b := [' ', 'b']) (by decide)
      (.inl (by simp [Text.isTerminator]))
  have hbefore : Text.BlankEdit "a\r\nb".toList "a\r\n b".toList :=
    .blanks (a := ['a', '\r', '\n']) (w := [' ']) (b := ['b'])
      (List.forall_mem_singleton.2 (by decide)) (.inl (by simp [Text.isTerminator]))
  have hbehind : Text.BlankEdit "a\r\nb".toList "a\t\r\nb".toList :=
    .blanks (a := ['a']) (w := ['\t']) (b := ['\r', '\n', 'b'])
      (List.forall_mem_singleton.2 (by decide)) (.inr (by simp [Text.isTerminator]))
  refine ⟨hlines _ _ (.trans _ _ _ (.rel _ _ hterminator) (.rel _ _ hempty)) lines (by decide),
    htrimmed _ _ (.trans _ _ _ (.symm _ _ (.rel _ _ hbefore)) (.rel _ _ hbehind)), ?_⟩
  exact (hvalid lines (by decide) [0x61, 0xFF] "db/V1__a.sql").2 ⟨⟨1, .invalid 1⟩, rfl, rfl⟩

end ChecksumPolicy

end SchemaPlan
