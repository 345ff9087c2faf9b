import SchemaPlan.Toml.Writer

/-!
# Written texts and keys read back

Whatever a text consists of, a reader that meets its written form gives the text and stops behind
the closing quotes (`readString_writeText`), and likewise for keys (`readKey_writeKey`).

One character is read back at a time: it stands as it is, or a reader takes its whole escape
(`readBasicFrom_writeBasicChar`, `readMultiBasicFrom_writeBasicChar`). Only quotes inside quotes on
several lines need a look at what follows. A reader ends a text at three quotes in a row and gives
up to two more in front of them to the text; so what counts is how many quotes begin the rest of
what is written (`Opening`), and that is never so many that the end would be seen too early
(`closing?_of_opening`).
-/

namespace SchemaPlan.Toml

variable {c quote : Char} {s rest written : List Char} {run : Nat}

/-! ### Escapes -/

theorem hexValue?_hexDigit {n : Nat} (h : n < 16) : hexValue? (hexDigit n) = some n := by
  have hall : ∀ m < 16, hexValue? (hexDigit m) = some m := by decide
  exact hall n h

theorem hexNumber?_hexDigits {n : Nat} (h : n < 65536) : hexNumber? (hexDigits n) = some n := by
  have hdigit (m : Nat) : hexValue? (hexDigit (m % 16)) = some (m % 16) :=
    hexValue?_hexDigit (Nat.mod_lt _ (by decide))
  simp only [hexNumber?, hexDigits, List.foldlM_cons, List.foldlM_nil, hdigit, Option.map_some,
    Option.bind_eq_bind, Option.bind_some, Option.pure_def, Option.some.injEq]
  omega

theorem codePoint?_hexDigits (h : c.toNat < 65536) (rest : List Char) :
    codePoint? 4 (hexDigits c.toNat ++ rest) = some c := by
  have htake : (hexDigits c.toNat ++ rest).take 4 = hexDigits c.toNat := rfl
  have hvalid : c.toNat.isValidChar := c.valid
  simp only [codePoint?, htake, hexNumber?_hexDigits h]
  simp [hexDigits, hvalid]

theorem ne_lineEnd_of_isPrintable (h : isPrintable c) : c ≠ '\n' ∧ c ≠ '\r' := by
  constructor <;> (rintro rfl; simp [isPrintable] at h)

/-- A character that no text can hold as it is has a small code point. -/
theorem toNat_lt_of_not_isPrintable (h : ¬ isPrintable c) : c.toNat < 65536 := by
  simp only [isPrintable, Bool.or_eq_true, decide_eq_true_eq, Bool.and_eq_true, not_or, not_and,
    Decidable.not_not] at h
  by_cases hle : ' ' ≤ c
  · rw [h.2 hle]
    decide
  · have hlt : c.toNat < ' '.toNat := Char.not_le.1 hle
    have hspace : ' '.toNat = 32 := by decide
    omega

/-- An escape is a backslash and what a reader takes for the character. -/
theorem exists_escape (h : escapeOf? c = some written) :
    ∃ body, written = '\\' :: body ∧
      ∀ rest, escape? (body ++ rest) = some (c, body.length) := by
  unfold escapeOf? at h
  split at h
  case h_8 =>
    split at h
    · cases h
    · next hprintable =>
      cases h
      refine ⟨'u' :: hexDigits c.toNat, rfl, fun rest => ?_⟩
      have hread := codePoint?_hexDigits (toNat_lt_of_not_isPrintable hprintable) rest
      simp only [List.cons_append, escape?, hread]
      rfl
  all_goals
    cases h
    exact ⟨_, rfl, fun rest => rfl⟩

theorem isPrintable_of_escapeOf?_eq_none (h : escapeOf? c = none) :
    isPrintable c ∧ c ≠ '"' ∧ c ≠ '\\' := by
  unfold escapeOf? at h
  split at h <;> simp_all

theorem exists_writeBasicChar (c : Char) :
    ∃ d t, writeBasicChar c = d :: t ∧ d ≠ '"' ∧ isPrintable d := by
  unfold writeBasicChar
  cases hescape : escapeOf? c with
  | none =>
    obtain ⟨hprintable, hquote, -⟩ := isPrintable_of_escapeOf?_eq_none hescape
    exact ⟨c, [], rfl, hquote, hprintable⟩
  | some written =>
    obtain ⟨body, rfl, -⟩ := exists_escape hescape
    exact ⟨'\\', body, rfl, by decide, by decide⟩

/-- What begins with an escape is no end of a line. -/
theorem continuation?_eq_none_of_escape? {found : Char × Nat} (h : escape? s = some found) :
    continuation? s = none := by
  unfold escape? at h
  split at h
  · cases h
  · split at h
    case h_10 => cases h
    all_goals rfl

/-! ### Texts on one line -/

theorem readBasicFrom_eq_drop (skip : Nat) (s : List Char) :
    readBasicFrom skip s = readBasicFrom 0 (s.drop skip) := by
  induction skip generalizing s with
  | zero => rfl
  | succ n ih =>
    cases s with
    | nil => simp [readBasicFrom]
    | cons c cs => simp [readBasicFrom, ih]

theorem readBasicFrom_writeBasicChar (c : Char) (rest : List Char) :
    readBasicFrom 0 (writeBasicChar c ++ rest) = consRead c (readBasicFrom 0 rest) := by
  unfold writeBasicChar
  cases hescape : escapeOf? c with
  | none =>
    obtain ⟨hprintable, hquote, hbackslash⟩ := isPrintable_of_escapeOf?_eq_none hescape
    simp [readBasicFrom, hprintable, hquote, hbackslash]
  | some written =>
    obtain ⟨body, rfl, hread⟩ := exists_escape hescape
    simp only [Option.getD_some, List.cons_append, readBasicFrom, hread]
    simp [readBasicFrom_eq_drop body.length]

theorem readBasicFrom_written (s rest : List Char) :
    readBasicFrom 0 (s.flatMap writeBasicChar ++ '"' :: rest) = some (s, rest) := by
  induction s with
  | nil => simp [readBasicFrom]
  | cons c cs ih =>
    rw [List.flatMap_cons, List.append_assoc, readBasicFrom_writeBasicChar, ih]
    rfl

theorem readLiteral_append (hprintable : ∀ c ∈ s, isPrintable c) (hquote : '\'' ∉ s)
    (rest : List Char) : readLiteral (s ++ '\'' :: rest) = some (s, rest) := by
  induction s with
  | nil => simp [readLiteral]
  | cons c cs ih =>
    rw [List.forall_mem_cons] at hprintable
    rw [List.mem_cons, not_or] at hquote
    rw [List.cons_append, readLiteral, if_neg (Ne.symm hquote.1), if_pos hprintable.1,
      ih hprintable.2 hquote.2]
    rfl

/-! ### Quotes in a row -/

/-- What is written for `s` behind `run` quotes begins with so few quotes that there are at most two
in a row; and where nothing else is written, those quotes are the text. -/
def Opening (quote : Char) (run : Nat) (s written : List Char) : Prop :=
  ∃ k t, written = List.replicate k quote ++ t ∧ run + k ≤ 2 ∧ t.head? ≠ some quote ∧
    (t = [] → s = List.replicate k quote)

theorem takeWhile_replicate_append (k : Nat) {t : List Char} (h : t.head? ≠ some quote) :
    (List.replicate k quote ++ t).takeWhile (· = quote) = List.replicate k quote := by
  have hquotes : ∀ c ∈ List.replicate k quote, decide (c = quote) = true := fun c hc =>
    decide_eq_true (List.eq_of_mem_replicate hc)
  have hnone : t.takeWhile (· = quote) = [] := by
    cases t with
    | nil => rfl
    | cons d t => exact List.takeWhile_cons_of_neg (by simpa using h)
  rw [List.takeWhile_append_of_pos hquotes, hnone, List.append_nil]

theorem closing?_eq_none {k : Nat} {t : List Char} (hk : k < 3) (h : t.head? ≠ some quote) :
    closing? quote (List.replicate k quote ++ t) = none := by
  simp only [closing?, takeWhile_replicate_append k h, List.length_replicate]
  rw [if_pos hk]

theorem closing?_eq_some {k : Nat} (hk : k ≤ 2) (h : rest.head? ≠ some quote) :
    closing? quote (List.replicate (k + 3) quote ++ rest) =
      some (List.replicate k quote, rest) := by
  have hinside : min (k + 3 - 3) 2 = k := by omega
  have hnot : ¬ k + 3 < 3 := by omega
  simp only [closing?, takeWhile_replicate_append (k + 3) h, List.length_replicate, hinside]
  rw [if_neg hnot, List.drop_left' (List.length_replicate ..)]

/-- Where nothing of the text is left, the quotes end it. -/
theorem closing?_replicate (hrest : rest.head? ≠ some quote) :
    closing? quote (List.replicate 3 quote ++ rest) = some ([], rest) :=
  closing?_eq_some (Nat.zero_le 2) hrest

/-- A quote inside is not taken for the end, except where only quotes follow it: then those are the
rest of the text. -/
theorem closing?_of_opening (h : Opening quote (run + 1) s written)
    (hrest : rest.head? ≠ some quote) :
    (closing? quote (quote :: (written ++ (List.replicate 3 quote ++ rest)))).or
      (some (quote :: s, rest)) = some (quote :: s, rest) := by
  obtain ⟨k, t, rfl, hk, ht, hs⟩ := h
  cases t with
  | nil =>
    obtain rfl := hs rfl
    have hquotes : quote :: ((List.replicate k quote ++ []) ++ (List.replicate 3 quote ++ rest)) =
        List.replicate (k + 1 + 3) quote ++ rest := by
      rw [List.append_nil, ← List.append_assoc, List.replicate_append_replicate,
        ← List.cons_append, ← List.replicate_succ, Nat.add_right_comm]
    rw [hquotes, closing?_eq_some (by omega) hrest, List.replicate_succ]
    rfl
  | cons d t =>
    have hquotes : quote :: ((List.replicate k quote ++ d :: t) ++
        (List.replicate 3 quote ++ rest)) =
        List.replicate (k + 1) quote ++ (d :: t ++ (List.replicate 3 quote ++ rest)) := by
      rw [List.append_assoc, ← List.cons_append, ← List.replicate_succ]
    have hhead : (d :: t ++ (List.replicate 3 quote ++ rest)).head? ≠ some quote := by
      simpa using ht
    rw [hquotes, closing?_eq_none (by omega) hhead]
    rfl

theorem opening_of_ne (hrun : run ≤ 2) (h : c ≠ quote) (t : List Char) :
    Opening quote run s (c :: t) :=
  ⟨0, c :: t, rfl, hrun, by simpa using h, by rintro ⟨⟩⟩

theorem opening_nil (quote : Char) (hrun : run ≤ 2) : Opening quote run [] [] :=
  ⟨0, [], rfl, hrun, by simp, fun _ => rfl⟩

theorem Opening.cons (h : Opening quote (run + 1) s written) :
    Opening quote run (quote :: s) (quote :: written) := by
  obtain ⟨k, t, rfl, hk, ht, hs⟩ := h
  refine ⟨k + 1, t, by rw [List.replicate_succ, List.cons_append], by omega, ht, fun hnil => ?_⟩
  rw [hs hnil, List.replicate_succ]

/-! ### Texts on several lines -/

theorem opening_writeMultiFrom (hrun : run ≤ 2) (s : List Char) :
    Opening '"' run s (writeMultiFrom run s) := by
  induction s generalizing run with
  | nil => exact opening_nil '"' hrun
  | cons c cs ih =>
    rw [writeMultiFrom]
    split
    · exact opening_of_ne hrun (by decide) _
    split
    · next hc =>
      subst hc
      split
      · next hlt =>
        have hnext : run + 1 ≤ 2 := by omega
        exact (ih hnext).cons
      · exact opening_of_ne hrun (by decide) _
    · obtain ⟨d, t, hwritten, hquote, -⟩ := exists_writeBasicChar c
      rw [hwritten]
      exact opening_of_ne hrun hquote _

theorem opening_of_longestRunFrom (h : longestRunFrom quote run s ≤ 2) :
    Opening quote run s s := by
  induction s generalizing run with
  | nil => exact opening_nil quote h
  | cons c cs ih =>
    rw [longestRunFrom] at h
    split at h
    · next hc =>
      subst hc
      exact (ih h).cons
    · next hc => exact opening_of_ne (by omega) hc cs

theorem readMultiBasicFrom_eq_drop (skip : Nat) (s : List Char) :
    readMultiBasicFrom skip s = readMultiBasicFrom 0 (s.drop skip) := by
  induction skip generalizing s with
  | zero => rfl
  | succ n ih =>
    cases s with
    | nil => simp [readMultiBasicFrom]
    | cons c cs => simp [readMultiBasicFrom, ih]

theorem readMultiBasicFrom_writeBasicChar (c : Char) (rest : List Char) :
    readMultiBasicFrom 0 (writeBasicChar c ++ rest) = consRead c (readMultiBasicFrom 0 rest) := by
  unfold writeBasicChar
  cases hescape : escapeOf? c with
  | none =>
    obtain ⟨hprintable, hquote, hbackslash⟩ := isPrintable_of_escapeOf?_eq_none hescape
    simp [readMultiBasicFrom, hprintable, hquote, hbackslash, ne_lineEnd_of_isPrintable hprintable]
  | some written =>
    obtain ⟨body, rfl, hread⟩ := exists_escape hescape
    simp only [Option.getD_some, List.cons_append, readMultiBasicFrom, hread,
      continuation?_eq_none_of_escape? (hread rest)]
    simp [readMultiBasicFrom_eq_drop body.length]

theorem readMultiBasicFrom_quote (s : List Char) :
    readMultiBasicFrom 0 ('"' :: s) =
      (closing? '"' ('"' :: s)).or (consRead '"' (readMultiBasicFrom 0 s)) := by
  rw [readMultiBasicFrom.eq_def]
  cases h : closing? '"' ('"' :: s) <;> simp [h]

theorem readMultiBasicFrom_lineFeed (s : List Char) :
    readMultiBasicFrom 0 ('\n' :: s) = consRead '\n' (readMultiBasicFrom 0 s) := by
  rw [readMultiBasicFrom.eq_def]
  rfl

theorem readMultiBasicFrom_written (hrun : run ≤ 2) (s : List Char)
    (hrest : rest.head? ≠ some '"') :
    readMultiBasicFrom 0 (writeMultiFrom run s ++ (List.replicate 3 '"' ++ rest)) =
      some (s, rest) := by
  induction s generalizing run with
  | nil =>
    refine (readMultiBasicFrom_quote (['"', '"'] ++ rest)).trans ?_
    exact congrArg (Option.or · _) (closing?_replicate hrest)
  | cons c cs ih =>
    rw [writeMultiFrom]
    split
    · next hc =>
      subst hc
      rw [List.cons_append, readMultiBasicFrom_lineFeed, ih (by decide)]
      rfl
    split
    · next hc =>
      subst hc
      split
      · next hlt =>
        have hnext : run + 1 ≤ 2 := by omega
        rw [List.cons_append, readMultiBasicFrom_quote, ih hnext]
        exact closing?_of_opening (opening_writeMultiFrom hnext cs) hrest
      · have hquote : ['\\', '"'] = writeBasicChar '"' := rfl
        rw [hquote, List.append_assoc, readMultiBasicFrom_writeBasicChar, ih (by decide)]
        rfl
    · rw [List.append_assoc, readMultiBasicFrom_writeBasicChar, ih (by decide)]
      rfl

theorem readMultiLiteral_quote (s : List Char) :
    readMultiLiteral ('\'' :: s) =
      (closing? '\'' ('\'' :: s)).or (consRead '\'' (readMultiLiteral s)) := by
  rw [readMultiLiteral.eq_def]
  cases h : closing? '\'' ('\'' :: s) <;> simp [h]

theorem readMultiLiteral_of_not_isControl (hcontrol : ¬ isControl c) (hquote : c ≠ '\'')
    (s : List Char) : readMultiLiteral (c :: s) = consRead c (readMultiLiteral s) := by
  rw [readMultiLiteral.eq_def]
  by_cases hfeed : c = '\n'
  · simp [hfeed]
  · have hprintable : isPrintable c := by simpa [isControl, hfeed] using hcontrol
    simp [ne_lineEnd_of_isPrintable hprintable, hquote, hprintable]

theorem readMultiLiteral_append (hcontrol : ∀ c ∈ s, ¬ isControl c)
    (hrun : longestRunFrom '\'' run s ≤ 2) (hrest : rest.head? ≠ some '\'') :
    readMultiLiteral (s ++ (List.replicate 3 '\'' ++ rest)) = some (s, rest) := by
  induction s generalizing run with
  | nil =>
    refine (readMultiLiteral_quote (['\'', '\''] ++ rest)).trans ?_
    exact congrArg (Option.or · _) (closing?_replicate hrest)
  | cons c cs ih =>
    rw [List.forall_mem_cons] at hcontrol
    rw [longestRunFrom] at hrun
    rw [List.cons_append]
    split at hrun
    · next hc =>
      subst hc
      rw [readMultiLiteral_quote, ih hcontrol.2 hrun]
      exact closing?_of_opening (opening_of_longestRunFrom hrun) hrest
    · next hc =>
      have hnext : longestRunFrom '\'' 0 cs ≤ 2 := by omega
      rw [readMultiLiteral_of_not_isControl hcontrol.1 hc, ih hcontrol.2 hnext]
      rfl

/-! ### The line end behind the opening quotes -/

theorem dropLineEnd_of_isPrintable (h : isPrintable c) (s : List Char) :
    dropLineEnd (c :: s) = c :: s := by
  simp [dropLineEnd, lineEndLength, ne_lineEnd_of_isPrintable h]

/-- The line feed that may open a text on several lines is dropped, and nothing else. -/
theorem dropLineEnd_leadingBreak (h : '\n' ∉ s → ∃ d t, written = d :: t ∧ isPrintable d) :
    dropLineEnd (leadingBreak s ++ written) = written := by
  unfold leadingBreak
  split
  · rfl
  · next hfeed =>
    obtain ⟨d, t, rfl, hprintable⟩ := h (by simpa using hfeed)
    exact dropLineEnd_of_isPrintable hprintable t

theorem exists_writeMultiFrom (hfeed : '\n' ∉ s) (rest : List Char) :
    ∃ d t, writeMultiFrom run s ++ '"' :: rest = d :: t ∧ isPrintable d := by
  cases s with
  | nil => exact ⟨'"', rest, rfl, by decide⟩
  | cons c cs =>
    rw [List.mem_cons, not_or] at hfeed
    rw [writeMultiFrom, if_neg (Ne.symm hfeed.1)]
    split
    · split
      · exact ⟨'"', _, rfl, by decide⟩
      · exact ⟨'\\', _, rfl, by decide⟩
    · obtain ⟨d, t, hwritten, -, hprintable⟩ := exists_writeBasicChar c
      rw [hwritten]
      exact ⟨d, _, rfl, hprintable⟩

/-! ### Any text -/

/-- No quote comes next. -/
structure Unquoted (rest : List Char) : Prop where
  double : rest.head? ≠ some '"'
  single : rest.head? ≠ some '\''

theorem unquoted_cons (hdouble : c ≠ '"') (hsingle : c ≠ '\'') (t : List Char) :
    Unquoted (c :: t) :=
  ⟨by simpa using hdouble, by simpa using hsingle⟩

theorem le_longestRunFrom (c : Char) (run : Nat) (s : List Char) :
    run ≤ longestRunFrom c run s := by
  induction s generalizing run with
  | nil => exact Nat.le_refl run
  | cons d ds ih =>
    rw [longestRunFrom]
    split
    · exact Nat.le_of_succ_le (ih (run + 1))
    · exact Nat.le_max_left ..

theorem notMem_of_longestRun_eq_zero (h : longestRun c s = 0) : c ∉ s := by
  unfold longestRun at h
  induction s with
  | nil => exact List.not_mem_nil
  | cons d ds ih =>
    rw [longestRunFrom] at h
    split at h
    · have := le_longestRunFrom c (0 + 1) ds
      omega
    · next hd =>
      rw [List.mem_cons, not_or]
      exact ⟨Ne.symm hd, ih (by omega)⟩

theorem isPrintable_of_not_isControl (hcontrol : ¬ isControl c) (hfeed : c ≠ '\n') :
    isPrintable c := by
  simpa [isControl, hfeed] using hcontrol

theorem of_styleOf_eq_literal (h : styleOf s = .literal) :
    (∀ c ∈ s, isPrintable c) ∧ '\'' ∉ s := by
  unfold styleOf at h
  simp only at h
  split at h
  · cases h
  split at h
  · next hliteral =>
    simp only [Bool.and_eq_true, Bool.not_eq_true', List.any_eq_false, decide_eq_true_eq,
      List.contains_eq_mem, decide_eq_false_iff_not] at hliteral
    obtain ⟨⟨hcontrols, hsingles⟩, hfeed⟩ := hliteral
    refine ⟨fun c hc => isPrintable_of_not_isControl (hcontrols c hc) ?_,
      notMem_of_longestRun_eq_zero hsingles⟩
    rintro rfl
    exact hfeed hc
  · split at h
    · cases h
    split at h
    · cases h
    split at h <;> cases h

theorem of_styleOf_eq_multiLiteral (h : styleOf s = .multiLiteral) :
    (∀ c ∈ s, ¬ isControl c) ∧ longestRun '\'' s ≤ 2 := by
  unfold styleOf at h
  simp only at h
  split at h
  · cases h
  split at h
  · cases h
  split at h
  · cases h
  split at h
  · next hmulti =>
    simpa only [Bool.and_eq_true, Bool.not_eq_true', List.any_eq_false, decide_eq_true_eq]
      using hmulti
  · split at h <;> cases h

theorem readString_double (h : ∀ t, s ≠ '"' :: '"' :: t) :
    readString ('"' :: s) = readBasicFrom 0 s := by
  unfold readString
  split <;> simp_all

theorem readString_single (h : ∀ t, s ≠ '\'' :: '\'' :: t) :
    readString ('\'' :: s) = readLiteral s := by
  unfold readString
  split <;> simp_all

theorem readString_basic (s : List Char) (hrest : Unquoted rest) :
    readString (writeAs .basic s ++ rest) = some (s, rest) := by
  have hform : writeAs .basic s ++ rest = '"' :: (s.flatMap writeBasicChar ++ '"' :: rest) := by
    simp [writeAs]
  rw [hform, readString_double, readBasicFrom_written]
  intro t heq
  cases s with
  | nil =>
    obtain rfl : rest = '"' :: t := by simpa using heq
    exact hrest.double rfl
  | cons c cs =>
    obtain ⟨d, u, hwritten, hquote, -⟩ := exists_writeBasicChar c
    rw [List.flatMap_cons, hwritten] at heq
    exact hquote (List.cons.inj heq).1

theorem readString_literal (hprintable : ∀ c ∈ s, isPrintable c) (hquote : '\'' ∉ s)
    (hrest : Unquoted rest) : readString (writeAs .literal s ++ rest) = some (s, rest) := by
  have hform : writeAs .literal s ++ rest = '\'' :: (s ++ '\'' :: rest) := by simp [writeAs]
  rw [hform, readString_single, readLiteral_append hprintable hquote]
  intro t heq
  cases s with
  | nil =>
    obtain rfl : rest = '\'' :: t := by simpa using heq
    exact hrest.single rfl
  | cons c cs =>
    obtain rfl := (List.cons.inj heq).1
    exact hquote List.mem_cons_self

theorem readString_multiBasic (s : List Char) (hrest : Unquoted rest) :
    readString (writeAs .multiBasic s ++ rest) = some (s, rest) := by
  have hform : writeAs .multiBasic s ++ rest = '"' :: '"' :: '"' ::
      (leadingBreak s ++ (writeMultiFrom 0 s ++ (List.replicate 3 '"' ++ rest))) := by
    simp [writeAs, List.replicate_succ]
  rw [hform, readString, dropLineEnd_leadingBreak]
  · exact readMultiBasicFrom_written (by decide) s hrest.double
  · exact fun hfeed => exists_writeMultiFrom hfeed _

theorem readString_multiLiteral (hcontrol : ∀ c ∈ s, ¬ isControl c)
    (hrun : longestRun '\'' s ≤ 2) (hrest : Unquoted rest) :
    readString (writeAs .multiLiteral s ++ rest) = some (s, rest) := by
  have hform : writeAs .multiLiteral s ++ rest = '\'' :: '\'' :: '\'' ::
      (leadingBreak s ++ (s ++ (List.replicate 3 '\'' ++ rest))) := by
    simp [writeAs, List.replicate_succ]
  rw [hform, readString, dropLineEnd_leadingBreak]
  · exact readMultiLiteral_append hcontrol hrun hrest.single
  · intro hfeed
    cases s with
    | nil => exact ⟨'\'', _, rfl, by decide⟩
    | cons c cs =>
      rw [List.mem_cons, not_or] at hfeed
      rw [List.forall_mem_cons] at hcontrol
      exact ⟨c, _, rfl, isPrintable_of_not_isControl hcontrol.1 (Ne.symm hfeed.1)⟩

/-- A written text is read back, and the reader stops behind its quotes. -/
theorem readString_writeText (text : String) (hrest : Unquoted rest) :
    readString (writeText text ++ rest) = some (text.toList, rest) := by
  unfold writeText
  cases hstyle : styleOf text.toList with
  | basic => exact readString_basic text.toList hrest
  | literal =>
    obtain ⟨hprintable, hquote⟩ := of_styleOf_eq_literal hstyle
    exact readString_literal hprintable hquote hrest
  | multiBasic => exact readString_multiBasic text.toList hrest
  | multiLiteral =>
    obtain ⟨hcontrol, hrun⟩ := of_styleOf_eq_multiLiteral hstyle
    exact readString_multiLiteral hcontrol hrun hrest

theorem exists_writeText (text : String) :
    ∃ d t, writeText text = d :: t ∧ (d = '"' ∨ d = '\'') := by
  unfold writeText
  cases styleOf text.toList
  · exact ⟨'"', _, rfl, .inl rfl⟩
  · exact ⟨'\'', _, rfl, .inr rfl⟩
  · exact ⟨'"', _, rfl, .inl rfl⟩
  · exact ⟨'\'', _, rfl, .inr rfl⟩

/-! ### Any key -/

/-- The forms in which a key is written: bare, or quoted on one line. -/
theorem writeKey_cases (key : String) :
    (key.toList ≠ [] ∧ (∀ c ∈ key.toList, isBareKeyChar c) ∧ writeKey key = key.toList) ∨
      writeKey key = writeAs .basic key.toList ∨
      ((∀ c ∈ key.toList, isPrintable c) ∧ '\'' ∉ key.toList ∧
        writeKey key = writeAs .literal key.toList) := by
  unfold writeKey
  simp only
  split
  · next hbare =>
    simp only [Bool.and_eq_true, Bool.not_eq_true', List.isEmpty_eq_false_iff, List.all_eq_true]
      at hbare
    exact .inl ⟨hbare.1, hbare.2, rfl⟩
  split
  · exact .inr (.inl rfl)
  split
  · next hliteral =>
    simp only [Bool.and_eq_true, Bool.not_eq_true', List.any_eq_false, List.contains_eq_mem,
      decide_eq_false_iff_not] at hliteral
    refine .inr (.inr ⟨?_, hliteral.2, rfl⟩)
    simpa using hliteral.1
  · exact .inr (.inl rfl)

theorem exists_writeKey (key : String) :
    ∃ c t, writeKey key = c :: t ∧ (isBareKeyChar c ∨ c = '"' ∨ c = '\'') := by
  rcases writeKey_cases key with ⟨hne, hbare, hform⟩ | hform | ⟨-, -, hform⟩
  · obtain ⟨c, t, hkey⟩ := List.exists_cons_of_ne_nil hne
    rw [hkey] at hform hbare
    exact ⟨c, t, hform, .inl (hbare c List.mem_cons_self)⟩
  · exact ⟨'"', _, hform, .inr (.inl rfl)⟩
  · exact ⟨'\'', _, hform, .inr (.inr rfl)⟩

theorem isBareKeyChar_ne (h : isBareKeyChar c) : c ≠ '"' ∧ c ≠ '\'' := by
  constructor <;> (rintro rfl; revert h; decide)

theorem readKey_bare (hne : s ≠ []) (hbare : ∀ c ∈ s, isBareKeyChar c) (hc : ¬ isBareKeyChar c)
    (rest : List Char) : readKey (s ++ c :: rest) = some (s, c :: rest) := by
  have htake : (s ++ c :: rest).takeWhile isBareKeyChar = s := by
    rw [List.takeWhile_append_of_pos hbare, List.takeWhile_cons_of_neg hc, List.append_nil]
  have hdrop : (s ++ c :: rest).dropWhile isBareKeyChar = c :: rest := by
    rw [List.dropWhile_append_of_pos hbare, List.dropWhile_cons_of_neg hc]
  obtain ⟨d, cs, rfl⟩ := List.exists_cons_of_ne_nil hne
  obtain ⟨hdouble, hsingle⟩ := isBareKeyChar_ne (hbare d List.mem_cons_self)
  unfold readKey
  split <;> simp_all

/-- A written key is read back, up to a space behind it. -/
theorem readKey_writeKey (key : String) (rest : List Char) :
    readKey (writeKey key ++ ' ' :: rest) = some (key.toList, ' ' :: rest) := by
  rcases writeKey_cases key with ⟨hne, hbare, hform⟩ | hform | ⟨hprintable, hquote, hform⟩
  · rw [hform]
    exact readKey_bare hne hbare (by decide) rest
  · rw [hform]
    simpa [writeAs, readKey] using readBasicFrom_written key.toList (' ' :: rest)
  · rw [hform]
    simpa [writeAs, readKey] using readLiteral_append hprintable hquote (' ' :: rest)

end SchemaPlan.Toml
