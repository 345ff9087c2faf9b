import SchemaPlan.Proofs.Resolver.Sql
import SchemaPlan.Proofs.Text.Utf8

/-!
# Checksums of copies that were saved again

An editor may save a text with other line ends, with or without one at the very end, and with a byte
order mark in front. The lines of such a copy need not be those of the text: a carriage return and a
line feed that ended two lines may come to stand side by side and end one. But the lines that are
not empty stay the same (`filled_of_resaved`), and empty ones add nothing to a checksum
(`checksumLines_filter`). So by the policies on lines each copy has the checksum of the text
(`contentChecksum?_of_copyOf`).
-/

namespace SchemaPlan

namespace Text

/-! ### Lines -/

variable {done : List (List Char)} {line s s' : List Char} {c : Char}

theorem linesFrom_pair :
    linesFrom done line ('\r' :: '\n' :: s) = linesFrom (line.reverse :: done) [] s := by
  rw [linesFrom]

theorem linesFrom_single (hpair : ∀ t, c = '\r' → s = '\n' :: t → False) :
    linesFrom done line (c :: s) =
      if c = '\n' ∨ c = '\r' then linesFrom (line.reverse :: done) [] s
      else linesFrom done (c :: line) s := by
  rw [linesFrom]
  exact hpair

/-- Finished lines stay as they are. -/
theorem linesFrom_append (done before : List (List Char)) (line s : List Char) :
    linesFrom (done ++ before) line s = before.reverse ++ linesFrom done line s := by
  induction done, line, s using linesFrom.induct with
  | case1 done line =>
    rw [linesFrom, linesFrom]
    split
    · exact List.reverse_append
    · rw [← List.cons_append, List.reverse_append]
  | case2 done line s ih => rw [linesFrom_pair, linesFrom_pair, ← ih, List.cons_append]
  | case3 done line c s hpair hc ih =>
    rw [linesFrom_single hpair, linesFrom_single hpair, if_pos hc, if_pos hc, ← ih,
      List.cons_append]
  | case4 done line c s hpair hc ih =>
    rw [linesFrom_single hpair, linesFrom_single hpair, if_neg hc, if_neg hc, ih]

/-! ### Lines that are not empty -/

/-- The lines that are not empty. -/
def filled (ls : List (List Char)) : List (List Char) := ls.filter (!·.isEmpty)

/-- The lines that are not empty from a current line on, which holds its characters in reverse. -/
def filledFrom (line s : List Char) : List (List Char) := filled (linesFrom [] line s)

theorem filledFrom_nil (line : List Char) : filledFrom line [] = filled [line.reverse] := by
  unfold filledFrom
  rw [linesFrom]
  cases line with
  | nil => rfl
  | cons c line => rfl

theorem filledFrom_plain (hc : c ∉ ['\r', '\n']) :
    filledFrom line (c :: s) = filledFrom (c :: line) s := by
  simp only [List.mem_cons, List.not_mem_nil, or_false, not_or] at hc
  unfold filledFrom
  rw [linesFrom_single fun _ h => absurd h hc.1, if_neg (not_or.2 hc.symm)]

theorem filledFrom_single (hpair : ∀ t, c = '\r' → s = '\n' :: t → False) (hc : c ∈ ['\r', '\n']) :
    filledFrom line (c :: s) = filled [line.reverse] ++ filledFrom [] s := by
  have hends : c = '\n' ∨ c = '\r' := by simpa [or_comm] using hc
  have happend := linesFrom_append [] [line.reverse] [] s
  rw [List.nil_append, List.reverse_singleton] at happend
  unfold filledFrom filled
  rw [linesFrom_single hpair, if_pos hends, happend, List.filter_append]

/-- A carriage return and a line feed each end the line. That both of them together end one line
only does not matter, as there is nothing between them. -/
theorem filledFrom_end (hc : c ∈ ['\r', '\n']) :
    filledFrom line (c :: s) = filled [line.reverse] ++ filledFrom [] s := by
  by_cases hpair : c = '\r' ∧ ∃ t, s = '\n' :: t
  · obtain ⟨rfl, t, rfl⟩ := hpair
    calc filledFrom line ('\r' :: '\n' :: t) = filledFrom line ('\n' :: t) := by
          unfold filledFrom
          rw [linesFrom_pair, linesFrom_single (fun _ h => absurd h (by decide)), if_pos (.inl rfl)]
      _ = filled [line.reverse] ++ filledFrom [] t :=
          filledFrom_single (fun _ h => absurd h (by decide)) (by decide)
      _ = filled [line.reverse] ++ filledFrom [] ('\n' :: t) := by
          rw [filledFrom_single (fun _ h => absurd h (by decide)) (by decide)]
          rfl
  · exact filledFrom_single (fun t h h' => hpair ⟨h, t, h'⟩) hc

/-! ### Saving a text again -/

/-- What ends a line. -/
def terminators : List (List Char) := [['\n'], ['\r', '\n'], ['\r']]

theorem filledFrom_terminator {e : List Char} (he : e ∈ terminators) (line s : List Char) :
    filledFrom line (e ++ s) = filled [line.reverse] ++ filledFrom [] s := by
  simp only [terminators, List.mem_cons, List.not_mem_nil, or_false] at he
  rcases he with rfl | rfl | rfl
  · exact filledFrom_end (by decide)
  · show filledFrom line ('\r' :: '\n' :: s) = _
    rw [filledFrom_end (by decide), filledFrom_end (by decide)]
    rfl
  · exact filledFrom_end (by decide)

/-- A terminator at the very end changes nothing. -/
theorem filledFrom_append_terminator {e : List Char} (he : e ∈ terminators) (line s : List Char) :
    filledFrom line (s ++ e) = filledFrom line s := by
  induction s generalizing line with
  | nil =>
    have h := filledFrom_terminator he line []
    rw [List.append_nil] at h
    rw [List.nil_append, h, filledFrom_nil, filledFrom_nil]
    exact List.append_nil _
  | cons c s ih =>
    rw [List.cons_append]
    by_cases hc : c ∈ ['\r', '\n']
    · rw [filledFrom_end hc, filledFrom_end hc, ih]
    · rw [filledFrom_plain hc, filledFrom_plain hc, ih]

/-- The second text is the first one with each line terminator in place of any other. -/
inductive Rewritten : List Char → List Char → Prop where
  /-- At the end. -/
  | nil : Rewritten [] []
  /-- A character of a line stays. -/
  | plain {c : Char} {s s' : List Char} : c ∉ ['\r', '\n'] → Rewritten s s' →
    Rewritten (c :: s) (c :: s')
  /-- A terminator may become another one. -/
  | terminator {e e' s s' : List Char} : e ∈ terminators → e' ∈ terminators → Rewritten s s' →
    Rewritten (e ++ s) (e' ++ s')

/-- The second text is the first one saved again: with other terminators, and perhaps with one more
or one less at the very end. -/
inductive Resaved (s : List Char) : List Char → Prop where
  /-- With a terminator at the end as there was, or with none. -/
  | kept {s' : List Char} : Rewritten s s' → Resaved s s'
  /-- With one more terminator. -/
  | added {e s' : List Char} : Rewritten s s' → e ∈ terminators → Resaved s (s' ++ e)
  /-- With one terminator less. -/
  | dropped {e s' : List Char} : Rewritten s (s' ++ e) → e ∈ terminators → Resaved s s'

theorem filledFrom_of_rewritten (h : Rewritten s s') (line : List Char) :
    filledFrom line s' = filledFrom line s := by
  induction h generalizing line with
  | nil => rfl
  | plain hc _ ih => rw [filledFrom_plain hc, filledFrom_plain hc, ih]
  | terminator he he' _ ih => rw [filledFrom_terminator he, filledFrom_terminator he', ih]

/-- **Saving a text again** keeps its lines, apart from empty ones. -/
theorem filled_of_resaved (h : Resaved s s') : filled (lines s') = filled (lines s) := by
  show filledFrom [] s' = filledFrom [] s
  cases h with
  | kept h => exact filledFrom_of_rewritten h []
  | added h he => rw [filledFrom_append_terminator he, filledFrom_of_rewritten h]
  | dropped h he => rw [← filledFrom_append_terminator he, filledFrom_of_rewritten h]

/-- A text that begins with no byte order mark does not get one when it is saved again. -/
theorem head?_of_resaved {mark : Char} (hmark : mark ∉ ['\r', '\n']) (hs : s.head? ≠ some mark)
    (h : Resaved s s') : s'.head? ≠ some mark := by
  have hterminator : ∀ e ∈ terminators, ∀ t : List Char, (e ++ t).head? ≠ some mark := by
    intro e he t heq
    simp only [terminators, List.mem_cons, List.not_mem_nil, or_false] at he
    rcases he with rfl | rfl | rfl <;>
    · cases heq
      exact hmark (by decide)
  have hrewritten : ∀ s', Rewritten s s' → s'.head? ≠ some mark := by
    intro s' h
    cases h with
    | nil => exact hs
    | plain _ _ => exact hs
    | terminator _ he' _ => exact hterminator _ he' _
  cases h with
  | kept h => exact hrewritten _ h
  | @added e s' h he =>
    cases s' with
    | nil => exact List.append_nil e ▸ hterminator e he []
    | cons c s' => exact hrewritten (c :: s') h
  | @dropped e s' h he =>
    cases s' with
    | nil => nofun
    | cons c s' => exact hrewritten (c :: s' ++ e) h

end Text

/-! ### Checksums -/

/-- A checksum is one of the lines put together. -/
theorem checksumLines_eq (ls : List (List Char)) :
    checksumLines ls = checksumOfBytes (ls.flatMap Text.encode) := by
  rw [checksumLines, Crc32.foldl_feed, ← List.flatMap_def]
  rfl

theorem flatMap_filled {β : Type} {f : List Char → List β} (hf : f [] = [])
    (ls : List (List Char)) : (Text.filled ls).flatMap f = ls.flatMap f := by
  induction ls with
  | nil => rfl
  | cons line ls ih =>
    rw [Text.filled, List.filter_cons]
    cases line with
    | nil =>
      rw [List.flatMap_cons, hf]
      exact ih
    | cons c line =>
      rw [List.flatMap_cons, ← ih]
      rfl

namespace ChecksumPolicy

variable {policy : ChecksumPolicy} {text text' : String}

/-- The policies on lines do not see empty lines. -/
theorem textChecksum_eq_of_filled (hpolicy : policy ≠ .rawBytes)
    (h : Text.filled (Text.lines text.toList) = Text.filled (Text.lines text'.toList)) :
    policy.textChecksum text = policy.textChecksum text' := by
  cases policy with
  | rawBytes => exact absurd rfl hpolicy
  | lines =>
    show checksumLines _ = checksumLines _
    rw [checksumLines_eq, checksumLines_eq, ← flatMap_filled rfl, h, flatMap_filled rfl]
  | trimmedLines =>
    show checksumLines (List.map _ _) = checksumLines (List.map _ _)
    rw [checksumLines_eq, checksumLines_eq, List.flatMap_map, List.flatMap_map,
      ← flatMap_filled rfl, h, flatMap_filled rfl]

end ChecksumPolicy

/-- The bytes are those of a text that was saved again, perhaps with a byte order mark in front. -/
inductive CopyOf (text : String) : List UInt8 → Prop where
  | plain {s : List Char} : Text.Resaved text.toList s → CopyOf text (Text.encode s)
  | marked {s : List Char} : Text.Resaved text.toList s →
    CopyOf text (Text.encode (Resource.byteOrderMark :: s))

namespace ChecksumPolicy

variable {policy : ChecksumPolicy} {text : String} {bytes : List UInt8}

/-- **Copies** of a text that begins with no byte order mark have, by the policies on lines, the
checksum of the text. -/
theorem contentChecksum?_of_copyOf (hpolicy : policy ≠ .rawBytes)
    (hmark : text.toList.head? ≠ some Resource.byteOrderMark) (h : CopyOf text bytes) :
    policy.contentChecksum? bytes = some (policy.textChecksum text) := by
  -- what is read of a copy is the text saved again, without the mark
  obtain ⟨s, copy, hs, rfl, hcopy⟩ : ∃ s copy, Text.Resaved text.toList s ∧
      bytes = Text.encode copy ∧ Resource.withoutMark (String.ofList copy) = String.ofList s := by
    cases h with
    | @plain s hs =>
      refine ⟨s, s, hs, rfl, ?_⟩
      have hhead := Text.head?_of_resaved (by decide) hmark hs
      unfold Resource.withoutMark
      rw [String.toList_ofList]
      cases s with
      | nil => rfl
      | cons c s => exact if_neg fun hc => hhead (congrArg some hc)
    | @marked s hs =>
      refine ⟨s, _, hs, rfl, ?_⟩
      unfold Resource.withoutMark
      rw [String.toList_ofList]
      exact if_pos rfl
  have hdecode : Text.decodeText (Text.encode copy) = .ok (String.ofList copy) := by
    rw [Text.decodeText, Text.decode_encode]
    rfl
  have hchecksum : policy.textChecksum (String.ofList s) = policy.textChecksum text := by
    refine textChecksum_eq_of_filled hpolicy ?_
    rw [String.toList_ofList]
    exact Text.filled_of_resaved hs
  cases policy with
  | rawBytes => exact absurd rfl hpolicy
  | _ =>
    rw [contentChecksum?, hdecode, ← hchecksum, ← hcopy]
    · rfl
    · rintro ⟨⟩

end ChecksumPolicy

end SchemaPlan
