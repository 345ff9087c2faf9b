import SchemaPlan.Proofs.Toml.Strings
import SchemaPlan.Toml.Document

/-!
# Written documents read back

What is written for a value, an assignment or a table is read back as such. `Writes` says that a
text is a written form of a value: a reader that meets it in front of the end of a line gives the
value. Texts, truth values and lists of texts are written so (`writes_writeText`,
`writes_writeBool`, `writes_writeArray`), and of such values a line per assignment is made and read
(`readStatements_lines`). The statements of two flat tables, the second below a header, build the
one with the other inside (`build?_lines`).
-/

namespace SchemaPlan.Toml

/-! ### Space between tokens -/

theorem skipSpaces_cons {c : Char} (h : c ≠ ' ' ∧ c ≠ '\t') (s : List Char) :
    skipSpaces (c :: s) = c :: s := by
  simp [skipSpaces, h]

@[simp] theorem skipTrivia_comma (s : List Char) : skipTrivia false (',' :: s) = ',' :: s := rfl

@[simp] theorem skipTrivia_lineFeed (s : List Char) :
    skipTrivia false ('\n' :: s) = skipTrivia false s := rfl

@[simp] theorem endLine?_lineFeed (s : List Char) : endLine? ('\n' :: s) = some s := rfl

/-! ### Values -/

/-- A written form of a value: whatever stands on the lines below, a reader gives the value. -/
structure Writes (w : List Char) (v : Value) : Prop where
  /-- It begins with no space. -/
  begins : ∃ c t, w = c :: t ∧ c ≠ ' ' ∧ c ≠ '\t'
  /-- It is read back. -/
  reads : ∀ fuel depth rest, w.length < fuel → 0 < depth →
    readValue fuel depth (w ++ '\n' :: rest) = some (v, '\n' :: rest)

theorem readValue_writeText (text : String) {fuel : Nat} (hfuel : 0 < fuel) (depth : Nat)
    {rest : List Char} (hrest : Unquoted rest) :
    readValue fuel depth (writeText text ++ rest) = some (.string text, rest) := by
  obtain ⟨n, rfl⟩ := Nat.exists_eq_add_one.2 hfuel
  obtain ⟨c, t, hform, hc⟩ := exists_writeText text
  have hread := readString_writeText text hrest
  rw [hform, List.cons_append] at hread ⊢
  rcases hc with rfl | rfl
  · simp [readValue, hread]
  · simp [readValue, hread]

theorem writes_writeText (text : String) : Writes (writeText text) (.string text) := by
  constructor
  · obtain ⟨c, t, hform, hc⟩ := exists_writeText text
    refine ⟨c, t, hform, ?_⟩
    rcases hc with rfl | rfl <;> decide
  · intro fuel depth rest hfuel _
    exact readValue_writeText text (by omega) depth (unquoted_cons (by decide) (by decide) rest)

theorem writes_writeBool (b : Bool) : Writes (writeBool b) (.boolean b) := by
  constructor
  · cases b
    · exact ⟨'f', _, rfl, by decide⟩
    · exact ⟨'t', _, rfl, by decide⟩
  · intro fuel depth rest hfuel _
    obtain ⟨n, rfl⟩ := Nat.exists_eq_add_one.2 (Nat.zero_lt_of_lt hfuel)
    cases b <;> rfl

/-! ### Lists of texts -/

/-- The lines between the brackets of a list of texts. -/
def itemLines (items : List String) : List Char :=
  items.flatMap fun item => "    ".toList ++ writeText item ++ [',', '\n']

theorem skipTrivia_writeText (text : String) (rest : List Char) :
    skipTrivia false (writeText text ++ rest) = writeText text ++ rest := by
  obtain ⟨c, t, hform, hc⟩ := exists_writeText text
  rw [hform]
  rcases hc with rfl | rfl <;> rfl

theorem readItems_comma (text : String) {fuel : Nat} (hfuel : 0 < fuel) (depth : Nat)
    (rest : List Char) :
    readItems (fuel + 1) depth (writeText text ++ ',' :: rest) =
      (readItems fuel depth (skipTrivia false rest)).map fun found =>
        (.string text :: found.1, found.2) := by
  obtain ⟨c, t, hform, hc⟩ := exists_writeText text
  have hread := readValue_writeText text hfuel depth
    (unquoted_cons (by decide) (by decide) rest : Unquoted (',' :: rest))
  rw [hform, List.cons_append] at hread ⊢
  rcases hc with rfl | rfl
  all_goals
    simp only [readItems, hread, Option.bind_eq_bind, Option.bind_some, skipTrivia_comma]
    cases readItems fuel depth (skipTrivia false rest) <;> rfl

theorem readItems_last (text : String) {fuel : Nat} (hfuel : 0 < fuel) (depth : Nat)
    (rest : List Char) :
    readItems (fuel + 1) depth (writeText text ++ ']' :: rest) = some ([.string text], rest) := by
  obtain ⟨c, t, hform, hc⟩ := exists_writeText text
  have hread := readValue_writeText text hfuel depth
    (unquoted_cons (by decide) (by decide) rest : Unquoted (']' :: rest))
  rw [hform, List.cons_append] at hread ⊢
  rcases hc with rfl | rfl
  all_goals
    simp only [readItems, hread, Option.bind_eq_bind, Option.bind_some]
    rfl

theorem readItems_itemLines (items : List String) {fuel : Nat} (hfuel : items.length < fuel)
    (depth : Nat) (rest : List Char) :
    readItems fuel depth (skipTrivia false (itemLines items ++ ']' :: rest)) =
      some (items.map .string, rest) := by
  induction items generalizing fuel with
  | nil =>
    obtain ⟨n, rfl⟩ := Nat.exists_eq_add_one.2 hfuel
    rfl
  | cons item items ih =>
    obtain ⟨n, rfl⟩ := Nat.exists_eq_add_one.2 (Nat.zero_lt_of_lt hfuel)
    have hn : items.length < n := by simpa using hfuel
    have hform : itemLines (item :: items) ++ ']' :: rest =
        "    ".toList ++ (writeText item ++ ',' :: '\n' :: (itemLines items ++ ']' :: rest)) := by
      simp [itemLines]
    have hmargin (s : List Char) : skipTrivia false ("    ".toList ++ s) = skipTrivia false s := rfl
    rw [hform, hmargin, skipTrivia_writeText, readItems_comma item (by omega),
      skipTrivia_lineFeed, ih hn]
    rfl

theorem length_le_length_itemLines (items : List String) :
    items.length ≤ (itemLines items).length := by
  induction items with
  | nil => exact Nat.le_refl 0
  | cons item items ih =>
    simp only [itemLines, List.flatMap_cons, List.length_append, List.length_cons] at ih ⊢
    omega

/-- What stands between the brackets of a list decides on what is read. -/
theorem readValue_bracket {n depth : Nat} {inside rest : List Char} {items : List Value}
    (h : readItems n depth (skipTrivia false inside) = some (items, rest)) :
    readValue (n + 1) (depth + 1) ('[' :: inside) = some (.array items, rest) := by
  simp [readValue, h]

/-- Whether a list has no items, one or more, they come back in their order. -/
theorem writes_writeArray (items : List String) :
    Writes (writeArray items) (.array (items.map .string)) := by
  constructor
  · unfold writeArray
    split <;> exact ⟨'[', _, rfl, by decide⟩
  intro fuel depth rest hfuel hdepth
  obtain ⟨n, rfl⟩ := Nat.exists_eq_add_one.2 (Nat.zero_lt_of_lt hfuel)
  obtain ⟨d, rfl⟩ := Nat.exists_eq_add_one.2 hdepth
  rcases items with _ | ⟨first, _ | ⟨second, more⟩⟩
  · have hlength : (writeArray []).length = 2 := rfl
    obtain ⟨m, rfl⟩ : ∃ m, n = m + 1 := Nat.exists_eq_add_one.2 (by omega)
    exact readValue_bracket rfl
  · have hform : writeArray [first] ++ '\n' :: rest =
        '[' :: (writeText first ++ ']' :: '\n' :: rest) := by simp [writeArray]
    have hlength : (writeArray [first]).length = (writeText first).length + 2 := by
      simp [writeArray]
    obtain ⟨m, rfl⟩ : ∃ m, n = m + 1 := Nat.exists_eq_add_one.2 (by omega)
    obtain ⟨c, t, htext, -⟩ := exists_writeText first
    have hpos : 0 < (writeText first).length := by rw [htext]; exact Nat.succ_pos _
    rw [hform]
    refine readValue_bracket ?_
    rw [skipTrivia_writeText, readItems_last first (by omega)]
    rfl
  · have hform : writeArray (first :: second :: more) =
        '[' :: '\n' :: (itemLines (first :: second :: more) ++ [']']) := by
      simp [writeArray, itemLines]
    have hlength : (writeArray (first :: second :: more)).length =
        (itemLines (first :: second :: more)).length + 3 := by simp [hform]
    have hlines := length_le_length_itemLines (first :: second :: more)
    rw [hform, List.cons_append, List.cons_append, List.append_assoc]
    refine readValue_bracket ?_
    rw [skipTrivia_lineFeed]
    exact readItems_itemLines (first :: second :: more) (by omega) d ('\n' :: rest)

/-! ### Lines -/

theorem readPath_writeKey (key : String) {parts : Nat} (hparts : 0 < parts) (rest : List Char) :
    readPath parts (writeKey key ++ ' ' :: '=' :: rest) = some ([key], '=' :: rest) := by
  obtain ⟨more, rfl⟩ := Nat.exists_eq_add_one.2 hparts
  obtain ⟨c, t, hform, hc⟩ := exists_writeKey key
  have hspaces : skipSpaces (writeKey key ++ ' ' :: '=' :: rest) =
      writeKey key ++ ' ' :: '=' :: rest := by
    rw [hform]
    refine skipSpaces_cons ?_ _
    constructor <;> (rintro rfl; revert hc; decide)
  have hequals : skipSpaces (' ' :: '=' :: rest) = '=' :: rest := rfl
  simp [readPath, hspaces, readKey_writeKey, hequals]

/-- A line that assigns a written value is read as that assignment. -/
theorem readAssignment_writeAssignment {w : List Char} {v : Value} (h : Writes w v) (key : String)
    (rest : List Char) :
    readAssignment (writeAssignment key w ++ rest) = some (.assign ⟨[], key, v⟩, rest) := by
  obtain ⟨c, t, rfl, hc⟩ := h.begins
  have hform : writeAssignment key (c :: t) ++ rest =
      writeKey key ++ ' ' :: '=' :: ' ' :: (c :: t ++ '\n' :: rest) := by
    simp [writeAssignment]
  have hread := h.reads ((c :: t ++ '\n' :: rest).length + 1) maxDepth rest
    (by simp only [List.length_append]; omega) (by decide)
  have hspaces : skipSpaces (' ' :: (c :: t ++ '\n' :: rest)) = c :: t ++ '\n' :: rest :=
    skipSpaces_cons hc _
  have hmark : mark? '=' ('=' :: ' ' :: (c :: t ++ '\n' :: rest)) =
      some (' ' :: (c :: t ++ '\n' :: rest)) := rfl
  have hsplit : splitPath? [key] = some ([], key) := rfl
  rw [hform, readAssignment, readPath_writeKey key (by decide)]
  simp only [Option.bind_eq_bind, Option.bind_some, hsplit, hmark, hspaces, hread,
    endLine?_lineFeed]
  rfl

theorem readStatements_writeAssignment {w : List Char} {v : Value} (h : Writes w v) (key : String)
    (fuel : Nat) (rest : List Char) :
    readStatements (fuel + 1) (writeAssignment key w ++ rest) =
      (readStatements fuel rest).map (.assign ⟨[], key, v⟩ :: ·) := by
  have hread := readAssignment_writeAssignment h key rest
  obtain ⟨c, t, hform, hc⟩ := exists_writeKey key
  rw [writeAssignment, hform] at hread ⊢
  simp only [List.cons_append] at hread ⊢
  have hne : c ≠ ' ' ∧ c ≠ '\t' ∧ c ≠ '#' ∧ c ≠ '\n' ∧ c ≠ '\r' ∧ c ≠ '[' := by
    refine ⟨?_, ?_, ?_, ?_, ?_, ?_⟩ <;> (rintro rfl; revert hc; decide)
  obtain ⟨hspace, htab, hmark, hfeed, hreturn, hbracket⟩ := hne
  rw [readStatements, skipSpaces_cons ⟨hspace, htab⟩]
  split
  case h_7 =>
    simp only [hread, Option.bind_eq_bind, Option.bind_some]
    cases readStatements fuel rest <;> rfl
  all_goals
    next heq => simp_all

/-! ### Headers -/

section Header

variable {name : String} (hne : name.toList ≠ []) (hbare : ∀ c ∈ name.toList, isBareKeyChar c)

include hne hbare

theorem readPath_bare {parts : Nat} (hparts : 0 < parts) (rest : List Char) :
    readPath parts (name.toList ++ ']' :: rest) = some ([name], ']' :: rest) := by
  obtain ⟨more, rfl⟩ := Nat.exists_eq_add_one.2 hparts
  obtain ⟨c, t, hform⟩ := List.exists_cons_of_ne_nil hne
  have hc : isBareKeyChar c := hbare c (hform ▸ List.mem_cons_self)
  have hspaces : skipSpaces (name.toList ++ ']' :: rest) = name.toList ++ ']' :: rest := by
    rw [hform]
    refine skipSpaces_cons ?_ _
    constructor <;> (rintro rfl; revert hc; decide)
  have hbracket : skipSpaces (']' :: rest) = ']' :: rest := rfl
  simp [readPath, hspaces, readKey_bare hne hbare (by decide : ¬ isBareKeyChar ']'), hbracket]

/-- The header of a table with a bare name is read as such. -/
theorem readStatements_header (fuel : Nat) (rest : List Char) :
    readStatements (fuel + 1) ('[' :: (name.toList ++ ']' :: '\n' :: rest)) =
      (readStatements fuel rest).map (.header ⟨[], name, false⟩ :: ·) := by
  have hread : readHeader false (name.toList ++ ']' :: '\n' :: rest) =
      some (.header ⟨[], name, false⟩, rest) := by
    rw [readHeader, readPath_bare hne hbare (by decide)]
    rfl
  obtain ⟨c, t, hform⟩ := List.exists_cons_of_ne_nil hne
  have hc : isBareKeyChar c := hbare c (hform ▸ List.mem_cons_self)
  have hbracket : c ≠ '[' := by rintro rfl; revert hc; decide
  have hspaces (s : List Char) : skipSpaces ('[' :: s) = '[' :: s := rfl
  rw [hform, List.cons_append] at hread ⊢
  rw [readStatements, hspaces]
  split
  case h_6 =>
    next heq =>
    cases heq
    simp only [hread, Option.bind_eq_bind, Option.bind_some]
    cases readStatements fuel rest <;> rfl
  all_goals
    next heq => simp_all

end Header

/-! ### Tables of one line for each key -/

/-- A key, the value it has and how that is written. -/
structure Line where
  key : String
  written : List Char
  value : Value
  /-- The value is what the written form stands for. -/
  writes : Writes written value

namespace Line

/-- The text of a line. -/
def text (l : Line) : List Char := writeAssignment l.key l.written

/-- The assignment that a line makes. -/
def assignment (l : Line) : Assignment := ⟨[], l.key, l.value⟩

/-- The entry that a line gives its table. -/
def entry (l : Line) : String × Value := (l.key, l.value)

theorem length_text_pos (l : Line) : 0 < l.text.length := by
  simp only [text, writeAssignment, List.length_append, List.length_singleton]
  exact Nat.succ_pos _

end Line

theorem readStatements_lines (ls : List Line) (fuel : Nat) (rest : List Char) :
    readStatements (fuel + ls.length) (ls.flatMap Line.text ++ rest) =
      (readStatements fuel rest).map (ls.map (.assign ·.assignment) ++ ·) := by
  induction ls with
  | nil => simp
  | cons l ls ih =>
    rw [List.flatMap_cons, List.append_assoc, List.length_cons, ← Nat.add_assoc, Line.text,
      readStatements_writeAssignment l.writes, ih, Option.map_map]
    rfl

theorem length_le_length_text (ls : List Line) : ls.length ≤ (ls.flatMap Line.text).length := by
  induction ls with
  | nil => exact Nat.le_refl 0
  | cons l ls ih =>
    have := l.length_text_pos
    simp only [List.flatMap_cons, List.length_append, List.length_cons]
    omega

theorem dropByteOrderMark_lines (l : Line) (ls : List Line) (rest : List Char) :
    dropByteOrderMark ((l :: ls).flatMap Line.text ++ rest) =
      (l :: ls).flatMap Line.text ++ rest := by
  obtain ⟨c, t, hform, hc⟩ := exists_writeKey l.key
  have hne : c ≠ '\ufeff' := by rintro rfl; revert hc; decide
  simp only [List.flatMap_cons, Line.text, writeAssignment, hform, List.cons_append]
  unfold dropByteOrderMark
  split
  · next heq => exact absurd (List.cons.inj heq).1 hne
  · rfl

/-! ### What the lines build -/

theorem sectionsOf_lines (ls : List Line) (rest : List Statement) :
    sectionsOf (ls.map (.assign ·.assignment) ++ rest) =
      (ls.map Line.assignment ++ (sectionsOf rest).1, (sectionsOf rest).2) := by
  induction ls with
  | nil => rfl
  | cons l ls ih =>
    rw [List.map_cons, List.cons_append, sectionsOf, ih]
    rfl

theorem lookup_eq_none_of_notMem {key : String} {entries : Entries}
    (h : key ∉ entries.map (·.1)) : entries.lookup key = none := by
  rw [List.lookup_eq_none_iff]
  intro e he
  have hne : key ≠ e.1 := fun heq => h (heq ▸ List.mem_map_of_mem he)
  simpa using hne

/-- Keys of their own give a table its entries in the order of the lines. -/
theorem assignAll?_lines (ls : List Line) (entries : Entries)
    (h : (entries.map (·.1) ++ ls.map Line.key).Nodup) :
    assignAll? (ls.map Line.assignment) entries = some (entries ++ ls.map Line.entry) := by
  induction ls generalizing entries with
  | nil => simp [assignAll?]
  | cons l ls ih =>
    have hnew : entries.lookup l.key = none :=
      lookup_eq_none_of_notMem fun hmem =>
        (List.nodup_append.1 h).2.2 _ hmem _ List.mem_cons_self rfl
    have hdefine : entries.defineDotted? [] l.key l.value = some (entries ++ [l.entry]) := by
      simp [Entries.defineDotted?, Entries.define?, hnew, Line.entry]
    have hnext := ih (entries ++ [l.entry]) (by simpa [Line.entry] using h)
    rw [assignAll?] at hnext ⊢
    simpa [Line.assignment, hdefine] using hnext

/-- Lines, a header and lines build the table of the first with that of the others at its end. -/
theorem build?_lines (ls inner : List Line) (name : String) (hkeys : (ls.map Line.key).Nodup)
    (hname : name ∉ ls.map Line.key) (hinner : (inner.map Line.key).Nodup) :
    build? (ls.map (.assign ·.assignment) ++
        .header ⟨[], name, false⟩ :: inner.map (.assign ·.assignment)) =
      some (ls.map Line.entry ++ [(name, .table .header (inner.map Line.entry))]) := by
  have hbelow : sectionsOf (inner.map (.assign ·.assignment)) =
      (inner.map Line.assignment, []) := by
    simpa [sectionsOf] using sectionsOf_lines inner []
  have hentries : (ls.map Line.entry).map (·.1) = ls.map Line.key := by
    rw [List.map_map]
    rfl
  have hfirst := assignAll?_lines ls [] hkeys
  have hothers := assignAll?_lines inner [] hinner
  have hnew : (ls.map Line.entry).lookup name = none :=
    lookup_eq_none_of_notMem (hentries ▸ hname)
  rw [List.nil_append] at hfirst hothers
  simp [build?, sectionsOf_lines, sectionsOf, hbelow, hfirst, addSection?, Entries.modifyAt?, hnew,
    hothers]

end SchemaPlan.Toml
