import SchemaPlan.Location.Json
import SchemaPlan.Proofs.Location.Coverage
import SchemaPlan.Proofs.Location.Directories

/-!
# Reading a displayed location back

Displaying a location writes its scheme before its path, and reading that again takes off the blanks
at the end before the path is normalised (`parse_scheme_append`). A path is normalised once and for
all (`make_path`), so a location is read back unless its path ends in a blank. Such paths exist,
because blanks are taken off a descriptor before the separators behind them are: the directory of
`filesystem:a /` is `a` with a blank. A slash behind a displayed location keeps its blanks.
-/

namespace SchemaPlan

/-! ### Blanks at an end -/

namespace Text

/-- Whether the last character of a text is blank. -/
def EndsBlank (s : String) : Prop := ∃ front c, s.toList = front ++ [c] ∧ isBlank c

/-- Trimming leaves what stands between two characters that are not blank. -/
theorem trimList_append {c d : Char} (hc : ¬ isBlank c) (hd : ¬ isBlank d) (mid s : List Char) :
    trimList (c :: mid ++ d :: s) = c :: mid ++ d :: s.rdropWhile isBlank := by
  rw [trimList, List.cons_append, List.dropWhile_cons_of_neg hc]
  exact rdropWhile_append hd (c :: mid) s

theorem rdropWhile_of_not_endsBlank {s : String} (h : ¬ EndsBlank s) :
    s.toList.rdropWhile isBlank = s.toList := by
  rw [List.rdropWhile_eq_self_iff]
  intro hne hblank
  exact h ⟨_, _, (List.dropLast_append_getLast hne).symm, hblank⟩

end Text

namespace Location

variable {m : Medium} {l : Location} {path : String}

/-! ### Normal paths -/

/-- The location of a path in a medium. -/
def make : Medium → String → Except PlanError Location
  | .embedded, path => .ok (embedded path)
  | .filesystem, path => filesystem path

/-- A location on disk has a path. -/
theorem Made.path_ne_empty (h : l.Made) (hl : l.isFilesystem) : l.path ≠ "" := by
  cases h with
  | embedded path => exact absurd hl Bool.false_ne_true
  | filesystem h => exact (filesystem_eq_ok_iff_trims.1 h).2.ne_empty

theorem medium_of_make (h : make m path = .ok l) : l.medium = m := by
  cases m with
  | embedded =>
    cases h
    rfl
  | filesystem => exact (filesystem_eq_ok_iff_trims.1 h).1

/-- A path is normalised once and for all. -/
theorem make_path (h : make m path = .ok l) : make m l.path = .ok l := by
  cases m with
  | embedded =>
    cases h
    show Except.ok (embedded (embedded path).path) = .ok (embedded path)
    rw [embedded, segments_embedded]
    rfl
  | filesystem =>
    obtain ⟨hmedium, htrims⟩ := filesystem_eq_ok_iff_trims.1 h
    have hself := trims_self htrims.ne_empty htrims.isTrimmed
    exact filesystem_eq_ok_iff_trims.2 ⟨hmedium, hself⟩

/-- A slash behind a path does not count. -/
theorem make_slash (h : make m path = .ok l) : make m (path ++ "/") = .ok l := by
  cases m with
  | embedded =>
    cases h
    show Except.ok (embedded (path ++ "/")) = .ok (embedded path)
    have hsegments : segments (path ++ "/") = segments path := by
      have hslash : (path ++ "/").toList = path.toList ++ '/' :: [] := String.toList_append
      rw [← String.ofList_toList (s := path ++ "/"), hslash, segments_append_slash,
        String.ofList_toList]
      exact List.append_nil _
    rw [embedded, hsegments]
    rfl
  | filesystem =>
    obtain ⟨hmedium, htrims⟩ := filesystem_eq_ok_iff_trims.1 h
    exact filesystem_eq_ok_iff_trims.2 ⟨hmedium, htrims.append_slash⟩

/-- The pieces of a text are made of its characters other than those it is split at. -/
theorem flatten_splitOnP (p : Char → Bool) (s : List Char) :
    (s.splitOnP p).flatten = s.filter fun c => !p c := by
  induction s with
  | nil => rfl
  | cons c s ih =>
    rw [List.splitOnP_cons_eq_if_modifyHead, List.filter_cons, ← ih]
    cases hc : p c with
    | true => simp
    | false =>
      obtain ⟨first, rest, hsplit⟩ := List.exists_cons_of_ne_nil (List.splitOnP_ne_nil p s)
      simp [hsplit]

/-- A blank at the end of a path does not come from the path without it. -/
theorem make_rdropWhile_ne (h : Text.EndsBlank l.path) :
    make m (String.ofList (l.path.toList.rdropWhile Text.isBlank)) ≠ .ok l := by
  obtain ⟨front, c, hpath, hblank⟩ := h
  rw [hpath, List.rdropWhile_concat_pos _ _ _ hblank]
  have hfront : front.rdropWhile Text.isBlank <+: front := List.rdropWhile_prefix _ front
  intro hmake
  cases m with
  | embedded =>
    cases hmake
    -- a blank is no separator, so it is in a segment
    have hsegments := congrArg List.flatten
      (segments_embedded (String.ofList (front.rdropWhile Text.isBlank)))
    rw [segments, segments, List.flatten_filter_not_isEmpty, List.flatten_filter_not_isEmpty,
      flatten_splitOnP, flatten_splitOnP, hpath, String.toList_ofList,
      List.filter_append] at hsegments
    have hlength := congrArg List.length hsegments
    have hle := (hfront.filter fun c => !decide (c = '/' ∨ c = '.')).length_le
    have hc : (!decide (c = '/' ∨ c = '.')) = true := by
      have hslash : c ≠ '/' := by rintro rfl; exact absurd hblank (by decide)
      have hdot : c ≠ '.' := by rintro rfl; exact absurd hblank (by decide)
      simp [hslash, hdot]
    rw [List.filter_singleton, hc, List.length_append] at hlength
    simp only [cond_true, List.length_singleton] at hlength
    omega
  | filesystem =>
    have hleft := (filesystem_eq_ok_iff_trims.1 hmake).2.isPrefix
    rw [String.toList_ofList] at hleft
    have hle := (hleft.trans hfront).length_le
    rw [hpath, List.length_append, List.length_singleton] at hle
    omega

/-! ### Reading -/

/-- Reading a path with a scheme before it takes off the blanks at the end first. -/
theorem parse_scheme_append (m : Medium) (path : String) :
    parse (m.scheme ++ path) = make m (String.ofList (path.toList.rdropWhile Text.isBlank)) := by
  have htext : ∃ c mid, m.scheme.toList = c :: mid ++ [':'] ∧ ¬ Text.isBlank c := by
    cases m with
    | embedded => exact ⟨'e', "mbedded".toList, rfl, by decide⟩
    | filesystem => exact ⟨'f', "ilesystem".toList, rfl, by decide⟩
  obtain ⟨c, mid, hscheme, hc⟩ := htext
  have htrim : Text.trimList (m.scheme ++ path).toList =
      m.scheme.toList ++ path.toList.rdropWhile Text.isBlank := by
    rw [String.toList_append, hscheme, List.append_assoc, List.singleton_append,
      Text.trimList_append hc (by decide), List.append_assoc, List.singleton_append]
  rw [parse, htrim]
  cases m with
  | embedded => rw [Text.dropPrefix?_append]; rfl
  | filesystem =>
    have hother : ∀ s, Text.dropPrefix? Medium.embedded.scheme.toList
        (Medium.filesystem.scheme.toList ++ s) = none := fun s => rfl
    rw [hother, Text.dropPrefix?_append]
    rfl

theorem Made.exists_make (h : l.Made) : ∃ path, make l.medium path = .ok l := by
  cases h with
  | embedded path => exact ⟨path, rfl⟩
  | @filesystem path _ hpath =>
    have hmake : make .filesystem path = .ok l := hpath
    exact ⟨path, by rwa [medium_of_make hmake]⟩

theorem exists_make_of_parse {descriptor : String} (h : parse descriptor = .ok l) :
    ∃ path, make l.medium path = .ok l :=
  (made_of_parse h).exists_make

theorem parse_display_eq_ok_iff (h : make l.medium path = .ok l) :
    parse l.display = .ok l ↔ ¬ Text.EndsBlank l.path := by
  rw [display, parse_scheme_append]
  refine ⟨fun hread hblank => make_rdropWhile_ne hblank hread, fun hblank => ?_⟩
  rw [Text.rdropWhile_of_not_endsBlank hblank, String.ofList_toList]
  exact make_path h

theorem parse_display_slash (h : make l.medium path = .ok l) :
    parse (l.display ++ "/") = .ok l := by
  have hslash : (l.path ++ "/").toList = l.path.toList ++ ['/'] := String.toList_append
  rw [display, String.append_assoc, parse_scheme_append, hslash,
    List.rdropWhile_concat_neg _ _ _ (by decide), ← hslash, String.ofList_toList]
  exact make_slash (make_path h)

theorem ofJson_toJson_eq_ok_iff : ofJson l.toJson = .ok l ↔ parse l.display = .ok l := by
  show (parse l.display).mapError JsonError.noDescriptor = .ok l ↔ _
  cases parse l.display with
  | error e => exact iff_of_false nofun nofun
  | ok k => exact ⟨fun h => congrArg _ (Except.ok.inj h), fun h => congrArg _ (Except.ok.inj h)⟩

/-- **Reading back**: a location is read back from the text it is displayed as, and from the JSON
value it is kept as, exactly if its path does not end in a blank. With a slash behind it the text is
always read back. -/
theorem read_back_iff {descriptor : String} (h : parse descriptor = .ok l) :
    (parse l.display = .ok l ↔ ¬ Text.EndsBlank l.path) ∧
      (ofJson l.toJson = .ok l ↔ ¬ Text.EndsBlank l.path) ∧ parse (l.display ++ "/") = .ok l := by
  obtain ⟨path, hmake⟩ := exists_make_of_parse h
  have hdisplay := parse_display_eq_ok_iff hmake
  exact ⟨hdisplay, ofJson_toJson_eq_ok_iff.trans hdisplay, parse_display_slash hmake⟩

theorem read_back_iff_blankBeforeSlash :
    parse " filesystem:a /" = .ok ⟨.filesystem, "a "⟩ ∧
      (parse "filesystem:a " = .ok ⟨.filesystem, "a "⟩ ↔ ¬ Text.EndsBlank "a ") ∧
      (ofJson (.text "filesystem:a ") = .ok ⟨.filesystem, "a "⟩ ↔ ¬ Text.EndsBlank "a ") ∧
      parse "filesystem:a /" = .ok ⟨.filesystem, "a "⟩ :=
  have h : parse " filesystem:a /" = .ok ⟨.filesystem, "a "⟩ := by decide
  ⟨h, read_back_iff h⟩

/-- A blank before a slash is in the path but not in what is read back. -/
theorem not_read_back_blankBeforeSlash :
    ¬ ∀ (descriptor : String) (l : Location), parse descriptor = .ok l →
      parse l.display = .ok l ∧ ofJson l.toJson = .ok l := by
  intro hall
  obtain ⟨hread, -⟩ := hall "filesystem:a /" ⟨.filesystem, "a "⟩ (by decide)
  exact absurd hread (by decide)

end Location

end SchemaPlan
