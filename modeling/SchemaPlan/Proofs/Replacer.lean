import Mathlib.Data.List.Sort
import Mathlib.Data.Nat.Find
import Mathlib.Tactic.Tauto
import SchemaPlan.Proofs.Text.ByteOrder
import SchemaPlan.Proofs.Text.Search
import SchemaPlan.Replacer

/-!
# What replacing placeholders does

A layout takes a script apart into placeholders and the text between them. A script has one layout
in which each placeholder is the leftmost one in what is left of the script, with the shortest name
there (`Layout.existsUnique_of`), and the search finds the pieces of this layout (`segments_eq`).
So either all its names have values, which stand in their places then, or the script is refused with
the names that have none (`replace_eq_ok_iff`, `replace_eq_error_iff`).
-/

namespace SchemaPlan

namespace Dict

variable {α : Type} {d : Dict α} {key : String}

theorem pairwise_keys (d : Dict α) : d.keys.Pairwise (· < ·) :=
  List.pairwise_map.2 d.ascending

theorem mem_keys_iff : key ∈ d.keys ↔ d.contains key := by
  unfold keys contains get?
  induction d.entries with
  | nil => simp
  | cons first rest ih =>
    obtain ⟨k, v⟩ := first
    rw [List.map_cons, List.mem_cons, lookup_cons_eq, ih]
    by_cases h : key = k
    · simp [h]
    · simp [h]

theorem contains_insert {k : String} {value : α} :
    (d.insert k value).contains key ↔ key = k ∨ d.contains key := by
  unfold contains
  rw [get?_insert]
  by_cases h : key = k
  · simp [h]
  · simp [h]

theorem mem_keys_ofList (entries : List (String × α)) :
    key ∈ (ofList entries).keys ↔ key ∈ entries.map (·.1) := by
  have hfoldl : ∀ d : Dict α,
      (entries.foldl (fun d entry => d.insert entry.1 entry.2) d).contains key ↔
        key ∈ entries.map (·.1) ∨ d.contains key := by
    induction entries with
    | nil => simp
    | cons first rest ih =>
      intro d
      rw [List.foldl_cons, ih, contains_insert, List.map_cons, List.mem_cons]
      tauto
  rw [mem_keys_iff, ofList, hfoldl]
  exact or_iff_left (by rintro ⟨⟩)

end Dict

namespace Replacer

variable {opening closing s t name name' before after : List Char} {c : Char} {n : ℕ}

/-! ### One placeholder -/

/-- What can be a placeholder's name: at least one character, and no end of a line. -/
def IsName (name : List Char) : Prop := name ≠ [] ∧ ∀ c ∈ name, c ≠ '\r' ∧ c ≠ '\n'

/-- A text begins with a name and the closing mark. -/
def Closes (closing name s : List Char) : Prop := IsName name ∧ name ++ closing <+: s

/-- A text begins with a placeholder of the given name. -/
def Begins (opening closing name s : List Char) : Prop :=
  IsName name ∧ opening ++ name ++ closing <+: s

/-- No shorter name has the property. -/
def Shortest (p : List Char → Prop) (name : List Char) : Prop :=
  p name ∧ ∀ name', p name' → name.length ≤ name'.length

theorem not_closes_nil : ¬ Closes closing name [] := by
  rintro ⟨⟨hname, -⟩, hprefix⟩
  exact hname (List.append_eq_nil_iff.1 (List.prefix_nil.1 hprefix)).1

/-- A name is one character that the closing mark follows, or a character in front of a name. -/
theorem closes_cons_iff :
    Closes closing name (c :: s) ↔ (c ≠ '\r' ∧ c ≠ '\n') ∧
      (name = [c] ∧ closing <+: s ∨ ∃ name', name = c :: name' ∧ Closes closing name' s) := by
  constructor
  · rintro ⟨⟨hne, hline⟩, hprefix⟩
    cases name with
    | nil => exact absurd rfl hne
    | cons d name =>
      rw [List.cons_append, List.cons_prefix_cons] at hprefix
      obtain ⟨rfl, hprefix⟩ := hprefix
      obtain ⟨hd, hline⟩ := List.forall_mem_cons.1 hline
      refine ⟨hd, ?_⟩
      by_cases hname : name = []
      · subst hname
        exact .inl ⟨rfl, hprefix⟩
      · exact .inr ⟨name, rfl, ⟨hname, hline⟩, hprefix⟩
  · rintro ⟨hc, ⟨rfl, hprefix⟩ | ⟨name', rfl, ⟨-, hline⟩, hprefix⟩⟩
    · exact ⟨⟨List.cons_ne_nil c [], by simpa using hc⟩, List.cons_prefix_cons.2 ⟨rfl, hprefix⟩⟩
    · exact ⟨⟨List.cons_ne_nil c name', List.forall_mem_cons.2 ⟨hc, hline⟩⟩,
        List.cons_prefix_cons.2 ⟨rfl, hprefix⟩⟩

theorem not_closes_of_nameBefore? (h : nameBefore? closing s = none) (name : List Char) :
    ¬ Closes closing name s := by
  induction s generalizing name with
  | nil => exact not_closes_nil
  | cons c s ih =>
    rw [closes_cons_iff]
    rw [nameBefore?] at h
    rintro ⟨hc, hname⟩
    rw [if_neg (not_or.2 hc)] at h
    split at h
    · cases h
    · next hclosing =>
      rcases hname with ⟨-, hprefix⟩ | ⟨name', -, hname'⟩
      · exact hclosing (Text.startsWith_iff.2 hprefix)
      · exact ih (Option.map_eq_none_iff.1 h) name' hname'

/-- The name that is found is the shortest one. -/
theorem shortest_of_nameBefore? (h : nameBefore? closing s = some name) :
    Shortest (Closes closing · s) name := by
  induction s generalizing name with
  | nil => cases h
  | cons c s ih =>
    rw [nameBefore?] at h
    split at h
    · cases h
    next hc =>
    have hc := not_or.1 hc
    split at h
    · next hclosing =>
      cases h
      refine ⟨closes_cons_iff.2 ⟨hc, .inl ⟨rfl, Text.startsWith_iff.1 hclosing⟩⟩, ?_⟩
      exact fun name' hname' => List.length_pos_iff.2 hname'.1.1
    · next hclosing =>
      obtain ⟨rest, hrest, rfl⟩ := Option.map_eq_some_iff.1 h
      obtain ⟨hcloses, hshortest⟩ := ih hrest
      refine ⟨closes_cons_iff.2 ⟨hc, .inr ⟨rest, rfl, hcloses⟩⟩, fun name' hname' => ?_⟩
      rcases (closes_cons_iff.1 hname').2 with ⟨-, hprefix⟩ | ⟨rest', rfl, hcloses'⟩
      · exact absurd (Text.startsWith_iff.2 hprefix) hclosing
      · exact Nat.succ_le_succ (hshortest rest' hcloses')

/-- A placeholder is the opening mark with a name and the closing mark behind it. -/
theorem begins_iff :
    Begins opening closing name s ↔
      ∃ rest, Text.dropPrefix? opening s = some rest ∧ Closes closing name rest := by
  unfold Begins Closes
  simp only [Text.dropPrefix?_eq_some_iff]
  constructor
  · rintro ⟨hname, rest, rfl⟩
    refine ⟨name ++ closing ++ rest, ?_, hname, List.prefix_append _ _⟩
    simp only [List.append_assoc]
  · rintro ⟨rest, rfl, hname, hprefix⟩
    rw [List.append_assoc]
    exact ⟨hname, (List.prefix_append_right_inj opening).2 hprefix⟩

theorem not_begins_of_nameAt? (h : nameAt? opening closing s = none) (name : List Char) :
    ¬ Begins opening closing name s := by
  rw [begins_iff]
  rintro ⟨rest, hrest, hcloses⟩
  rw [nameAt?, hrest] at h
  exact not_closes_of_nameBefore? h name hcloses

theorem shortest_of_nameAt? (h : nameAt? opening closing s = some name) :
    Shortest (Begins opening closing · s) name := by
  obtain ⟨rest, hrest, hname⟩ := Option.bind_eq_some_iff.1 h
  obtain ⟨hcloses, hshortest⟩ := shortest_of_nameBefore? hname
  refine ⟨begins_iff.2 ⟨rest, hrest, hcloses⟩, fun name' hname' => ?_⟩
  obtain ⟨rest', hrest', hcloses'⟩ := begins_iff.1 hname'
  rw [hrest] at hrest'
  cases hrest'
  exact hshortest name' hcloses'

/-- A text begins with one shortest placeholder at most. -/
theorem Shortest.eq (h : Shortest (Begins opening closing · s) name)
    (h' : Shortest (Begins opening closing · s) name') : name = name' := by
  have hlength : name.length = name'.length := Nat.le_antisymm (h.2 _ h'.1) (h'.2 _ h.1)
  obtain ⟨r, hr⟩ := h.1.2
  obtain ⟨r', hr'⟩ := h'.1.2
  rw [← hr'] at hr
  simp only [List.append_assoc, List.append_cancel_left_eq] at hr
  exact (List.append_inj hr hlength).1

theorem nameAt?_eq_some_iff :
    nameAt? opening closing s = some name ↔ Shortest (Begins opening closing · s) name := by
  refine ⟨shortest_of_nameAt?, fun h => ?_⟩
  cases hfound : nameAt? opening closing s with
  | none => exact absurd h.1 (not_begins_of_nameAt? hfound name)
  | some name' => rw [(shortest_of_nameAt? hfound).eq h]

theorem nameAt?_eq_none_iff :
    nameAt? opening closing s = none ↔ ∀ name, ¬ Begins opening closing name s := by
  refine ⟨not_begins_of_nameAt?, fun h => Option.eq_none_iff_forall_ne_some.2 fun name hname => ?_⟩
  exact h name (shortest_of_nameAt? hname).1

/-- Where placeholders begin, one of them is the first, and it has one shortest name. -/
theorem exists_first (h : ∃ n name, Begins opening closing name (s.drop n)) :
    ∃ before name after, s = before ++ (opening ++ name ++ closing ++ after) ∧
      Shortest (Begins opening closing · (opening ++ name ++ closing ++ after)) name ∧
      ∀ n < before.length, ∀ name', ¬ Begins opening closing name' (s.drop n) := by
  classical
  have hfirst := Nat.find_spec h
  have hbefore := fun m hm => Nat.find_min h (m := m) hm
  generalize Nat.find h = n at hfirst hbefore
  cases hname : nameAt? opening closing (s.drop n) with
  | none =>
    obtain ⟨name, hbegins⟩ := hfirst
    exact absurd hbegins (nameAt?_eq_none_iff.1 hname name)
  | some name =>
    have hshortest := nameAt?_eq_some_iff.1 hname
    obtain ⟨-, after, hafter⟩ := hshortest.1
    refine ⟨s.take n, name, after, ?_, hafter ▸ hshortest, fun m hm name' hbegins => ?_⟩
    · rw [hafter, List.take_append_drop]
    · exact hbefore m (Nat.lt_of_lt_of_le hm (List.length_take_le n s)) ⟨name', hbegins⟩

/-! ### A whole script -/

/-- A script taken apart at placeholders. -/
inductive Layout where
  /-- What stands behind the last placeholder. -/
  | last (text : List Char)
  /-- A placeholder's name, after the text in front of the placeholder. -/
  | more (before name : List Char) (rest : Layout)

namespace Layout

/-- The script that is taken apart. -/
def text (opening closing : List Char) : Layout → List Char
  | last t => t
  | more before name rest => before ++ (opening ++ name ++ closing ++ rest.text opening closing)

/-- The names of the placeholders, from left to right. -/
def names : Layout → List (List Char)
  | last _ => []
  | more _ name rest => name :: rest.names

/-- The script with something else for each placeholder. -/
def fill (value : List Char → List Char) : Layout → List Char
  | last t => t
  | more before name rest => before ++ value name ++ rest.fill value

/-- The pieces of the script. -/
def pieces : Layout → List Segment
  | last t => t.map .plain
  | more before name rest => before.map .plain ++ .placeholder name :: rest.pieces

/-- In what is left of the script behind a placeholder, no placeholder begins before the next one,
and none with a shorter name begins where that one does. -/
def Leftmost (opening closing : List Char) : Layout → Prop
  | last t => ∀ n name, ¬ Begins opening closing name (t.drop n)
  | more before name rest =>
    Shortest (Begins opening closing · (opening ++ name ++ closing ++ rest.text opening closing))
        name ∧
      (∀ n < before.length, ∀ name', ¬ Begins opening closing name'
        ((before ++ (opening ++ name ++ closing ++ rest.text opening closing)).drop n)) ∧
      rest.Leftmost opening closing

variable {layout layout' rest : Layout}

/-- The first placeholder is there, and it is the shortest. -/
theorem Leftmost.shortest (h : (more before name rest).Leftmost opening closing) :
    Shortest (Begins opening closing ·
      (((more before name rest).text opening closing).drop before.length)) name := by
  rw [text, List.drop_left]
  exact h.1

theorem Leftmost.not_before (h : (more before name rest).Leftmost opening closing)
    (hn : n < before.length) (name' : List Char) :
    ¬ Begins opening closing name' (((more before name rest).text opening closing).drop n) :=
  h.2.1 n hn name'

/-- **Unique factorisation**: a script is taken apart in one way only. -/
theorem Leftmost.eq (h : layout.Leftmost opening closing) (h' : layout'.Leftmost opening closing)
    (htext : layout.text opening closing = layout'.text opening closing) : layout = layout' := by
  induction layout generalizing layout' with
  | last t =>
    cases layout' with
    | last t' => exact congrArg last htext
    | more before' name' rest' =>
      have hbegins := h'.shortest.1
      rw [← htext] at hbegins
      exact absurd hbegins (h _ _)
  | more before name rest ih =>
    cases layout' with
    | last t' =>
      have hbegins := h.shortest.1
      rw [htext] at hbegins
      exact absurd hbegins (h' _ _)
    | more before' name' rest' =>
      have hlength : before.length = before'.length := by
        rcases Nat.lt_trichotomy before.length before'.length with hlt | heq | hlt
        · exact absurd (htext ▸ h.shortest.1) (h'.not_before hlt name)
        · exact heq
        · exact absurd (htext ▸ h'.shortest.1) (h.not_before hlt name')
      obtain ⟨rfl, hrest⟩ := List.append_inj htext hlength
      obtain rfl : name = name' := by
        refine h.1.eq ?_
        rw [hrest]
        exact h'.1
      rw [ih h.2.2 h'.2.2 (List.append_cancel_left hrest)]

/-- A script can be taken apart. -/
theorem exists_leftmost (opening closing s : List Char) :
    ∃ layout : Layout, layout.text opening closing = s ∧ layout.Leftmost opening closing := by
  induction hlength : s.length using Nat.strongRecOn generalizing s with
  | ind k ih =>
    by_cases hsome : ∃ n name, Begins opening closing name (s.drop n)
    · obtain ⟨before, name, after, rfl, hshortest, hbefore⟩ := exists_first hsome
      have hlt : after.length < k := by
        have hpos := List.length_pos_iff.2 hshortest.1.1.1
        simp only [List.length_append] at hlength
        omega
      obtain ⟨rest, rfl, hrest⟩ := ih _ hlt after rfl
      exact ⟨more before name rest, rfl, hshortest, hbefore, hrest⟩
    · exact ⟨last s, rfl, fun n name hbegins => hsome ⟨n, name, hbegins⟩⟩

end Layout

/-! ### Finding and replacing -/

theorem segmentsFrom_cons (h : nameAt? opening closing (c :: s) = none) :
    segmentsFrom opening closing 0 (c :: s) = .plain c :: segmentsFrom opening closing 0 s := by
  rw [segmentsFrom, h]

/-- Behind a placeholder the search goes on. -/
theorem segmentsFrom_append
    (h : nameAt? opening closing (opening ++ name ++ closing ++ s) = some name)
    (hname : name ≠ []) :
    segmentsFrom opening closing 0 (opening ++ name ++ closing ++ s) =
      .placeholder name :: segmentsFrom opening closing 0 s := by
  cases htext : opening ++ name ++ closing ++ s with
  | nil => simp [hname] at htext
  | cons c cs =>
    rw [htext] at h
    have hpos := List.length_pos_iff.2 hname
    have hdrop : cs.drop (opening.length + name.length + closing.length - 1) = s := by
      have hcs : (c :: cs).drop (opening.length + name.length + closing.length) = s := by
        rw [← htext, ← List.length_append, ← List.length_append, List.drop_left]
      rw [← hcs, ← List.drop_succ_cons (a := c)]
      congr 1
      omega
    rw [segmentsFrom, h]
    simp only
    rw [segmentsFrom_eq_drop, hdrop]

/-- Text in which no placeholder begins stays as it is. -/
theorem segmentsFrom_plain (h : ∀ n < before.length, ∀ name,
      ¬ Begins opening closing name ((before ++ s).drop n)) :
    segmentsFrom opening closing 0 (before ++ s) =
      before.map .plain ++ segmentsFrom opening closing 0 s := by
  induction before with
  | nil => rfl
  | cons c before ih =>
    have hfirst := h 0 (Nat.succ_pos _)
    rw [List.drop_zero, List.cons_append, ← nameAt?_eq_none_iff] at hfirst
    rw [List.cons_append, segmentsFrom_cons hfirst, ih fun n hn => h (n + 1) (Nat.succ_lt_succ hn)]
    rfl

/-- The search finds the pieces of the layout. -/
theorem segmentsFrom_text {layout : Layout} (h : layout.Leftmost opening closing) :
    segmentsFrom opening closing 0 (layout.text opening closing) = layout.pieces := by
  induction layout with
  | last t =>
    have hplain : segmentsFrom opening closing 0 (t ++ []) =
        t.map .plain ++ segmentsFrom opening closing 0 [] :=
      segmentsFrom_plain fun n _ => by
        rw [List.append_nil]
        exact h n
    rwa [List.append_nil, segmentsFrom, List.append_nil] at hplain
  | more before name rest ih =>
    obtain ⟨hshortest, hbefore, hrest⟩ := h
    rw [Layout.text, segmentsFrom_plain hbefore,
      segmentsFrom_append (nameAt?_eq_some_iff.2 hshortest) hshortest.1.1.1, ih hrest,
      Layout.pieces]

/-- The layout of a script for a replacer: each placeholder is the leftmost and shortest one. -/
structure Layout.Of (r : Replacer) (sql : String) (layout : Layout) : Prop where
  text_eq : layout.text r.opening.toList r.closing.toList = sql.toList
  leftmost : layout.Leftmost r.opening.toList r.closing.toList

variable {r : Replacer} {sql : String} {layout : Layout}

theorem Layout.Of.segments_eq (h : layout.Of r sql) : r.segments sql.toList = layout.pieces := by
  rw [segments, ← h.text_eq, segmentsFrom_text h.leftmost]

theorem plain_injective : Function.Injective Segment.plain := by
  rintro c d ⟨⟩
  rfl

/-- The first placeholder tells how much text stands in front of it. -/
theorem map_plain_append_inj {xs ys : List Segment}
    (h : before.map Segment.plain ++ .placeholder name :: xs =
      after.map Segment.plain ++ .placeholder name' :: ys) :
    before = after ∧ name = name' ∧ xs = ys := by
  induction before generalizing after with
  | nil =>
    cases after with
    | nil =>
      cases h
      exact ⟨rfl, rfl, rfl⟩
    | cons d after => cases h
  | cons c before ih =>
    cases after with
    | nil => cases h
    | cons d after =>
      obtain ⟨hchar, htail⟩ := List.cons.inj h
      obtain ⟨rfl, hname, hrest⟩ := ih htail
      exact ⟨congrArg (· :: before) (plain_injective hchar), hname, hrest⟩

theorem Layout.placeholder_mem_pieces (before name : List Char) (rest : Layout) :
    .placeholder name ∈ (more before name rest).pieces :=
  List.mem_append_right _ List.mem_cons_self

theorem Layout.not_placeholder_mem_pieces (t name : List Char) :
    .placeholder name ∉ (last t).pieces := by
  intro h
  obtain ⟨c, -, hc⟩ := List.mem_map.1 h
  cases hc

theorem Layout.pieces_injective : Function.Injective Layout.pieces := by
  intro layout layout' h
  induction layout generalizing layout' with
  | last t =>
    cases layout' with
    | last t' => exact congrArg last (List.map_injective_iff.2 plain_injective h)
    | more before' name' rest' =>
      exact absurd (h ▸ placeholder_mem_pieces before' name' rest')
        (not_placeholder_mem_pieces t name')
  | more before name rest ih =>
    cases layout' with
    | last t' =>
      exact absurd (h ▸ placeholder_mem_pieces before name rest)
        (not_placeholder_mem_pieces t' name)
    | more before' name' rest' =>
      obtain ⟨rfl, rfl, hrest⟩ := map_plain_append_inj h
      rw [ih hrest]

theorem Layout.existsUnique_of (r : Replacer) (sql : String) :
    ∃! layout : Layout, layout.Of r sql := by
  obtain ⟨layout, htext, hleftmost⟩ :=
    exists_leftmost r.opening.toList r.closing.toList sql.toList
  refine ⟨layout, ⟨htext, hleftmost⟩, fun other hother => ?_⟩
  exact hother.leftmost.eq hleftmost (hother.text_eq.trans htext.symm)

/-- A layout can be checked by searching the script. -/
theorem Layout.of_iff : layout.Of r sql ↔ r.segments sql.toList = layout.pieces := by
  refine ⟨Of.segments_eq, fun h => ?_⟩
  obtain ⟨found, hfound, -⟩ := existsUnique_of r sql
  rwa [← pieces_injective (hfound.segments_eq.symm.trans h)]

theorem flatMap_render (r : Replacer) (layout : Layout) :
    layout.pieces.flatMap r.render = layout.fill fun name => r.render (.placeholder name) := by
  have hplain : ∀ t : List Char, (t.map Segment.plain).flatMap r.render = t := fun t => by
    rw [List.flatMap_map]
    exact List.flatMap_singleton' t
  induction layout with
  | last t => exact hplain t
  | more before name rest ih =>
    rw [Layout.pieces, List.flatMap_append, List.flatMap_cons, hplain, ih, Layout.fill,
      List.append_assoc]

theorem filterMap_missingName? (r : Replacer) (layout : Layout) :
    layout.pieces.filterMap r.missingName? =
      (layout.names.map String.ofList).filter fun name => !r.values.contains name := by
  have hplain : ∀ t : List Char, (t.map Segment.plain).filterMap r.missingName? = [] := fun t => by
    rw [List.filterMap_map]
    exact List.filterMap_eq_nil_iff.2 fun _ _ => rfl
  induction layout with
  | last t => exact hplain t
  | more before name rest ih =>
    rw [Layout.pieces, List.filterMap_append, hplain, List.nil_append, List.filterMap_cons, ih,
      Layout.names, List.map_cons, List.filter_cons, missingName?]
    cases r.values.contains (String.ofList name) <;> rfl

theorem Layout.fill_congr {value value' : List Char → List Char}
    (h : ∀ name ∈ layout.names, value name = value' name) :
    layout.fill value = layout.fill value' := by
  induction layout with
  | last t => rfl
  | more before name rest ih =>
    obtain ⟨hname, hrest⟩ := List.forall_mem_cons.1 h
    rw [fill, fill, hname, ih hrest]

theorem mem_missing_iff {name : String} :
    name ∈ r.missing layout.pieces ↔ name.toList ∈ layout.names ∧ r.values.get? name = none := by
  rw [missing, Dict.mem_keys_ofList, List.map_map, filterMap_missingName?]
  have hnames : name ∈ layout.names.map String.ofList ↔ name.toList ∈ layout.names := by
    rw [List.mem_map]
    constructor
    · rintro ⟨n, hn, rfl⟩
      rwa [String.toList_ofList]
    · exact fun h => ⟨_, h, String.ofList_toList⟩
  simp [Function.comp_def, List.mem_filter, hnames, Dict.contains]

theorem missing_eq_nil_iff :
    r.missing layout.pieces = [] ↔
      ∀ name ∈ layout.names, (r.values.get? (String.ofList name)).isSome := by
  rw [List.eq_nil_iff_forall_not_mem]
  constructor
  · intro h name hname
    have hnot := h (String.ofList name)
    rw [mem_missing_iff, String.toList_ofList] at hnot
    exact Option.isSome_iff_ne_none.2 fun hnone => hnot ⟨hname, hnone⟩
  · intro h name hmem
    obtain ⟨hname, hnone⟩ := mem_missing_iff.1 hmem
    have hsome := h _ hname
    rw [String.ofList_toList, hnone] at hsome
    cases hsome

/-- A placeholder with a value is rendered as its value. -/
theorem fill_render {value : List Char → List Char} (h : ∀ name ∈ layout.names,
      r.values.get? (String.ofList name) = some (String.ofList (value name))) :
    layout.fill (fun name => r.render (.placeholder name)) = layout.fill value := by
  refine Layout.fill_congr fun name hname => ?_
  rw [render, h name hname]
  exact String.toList_ofList

/-- The error for names without a value. -/
def refusal (names : List String) : PlanError :=
  let listed := ", ".intercalate names
  .execution s!"No value provided for placeholder(s): {listed}. Check your configuration!"

/-- The names of a script's placeholders that have no value. -/
def missingIn (r : Replacer) (sql : String) : List String := r.missing (r.segments sql.toList)

/-- A script is refused for the names that are missing; without any, it is filled in. -/
theorem replace_eq_missingIn (r : Replacer) (sql : String) :
    r.replace sql =
      if r.missingIn sql = [] then
        .ok (String.ofList ((r.segments sql.toList).flatMap r.render))
      else .error (refusal (r.missingIn sql)) := by
  unfold replace missingIn
  simp only
  split
  · next hnil => rw [if_pos hnil]
  · next hne =>
    rw [if_neg hne]
    rfl

theorem replace_eq (h : layout.Of r sql) :
    r.replace sql =
      if r.missing layout.pieces = [] then
        .ok (String.ofList (layout.fill fun name => r.render (.placeholder name)))
      else .error (refusal (r.missing layout.pieces)) := by
  rw [replace_eq_missingIn, missingIn, h.segments_eq, flatMap_render]

/-- A script is replaced exactly if all its placeholders have values, and then these stand in their
places. -/
theorem replace_eq_ok_iff (h : layout.Of r sql) {text : String} :
    r.replace sql = .ok text ↔ ∃ value : List Char → List Char,
      (∀ name ∈ layout.names, r.values.get? (String.ofList name) =
        some (String.ofList (value name))) ∧ text = String.ofList (layout.fill value) := by
  rw [replace_eq h]
  constructor
  · intro hok
    split at hok
    · next hmissing =>
      cases hok
      refine ⟨_, fun name hname => ?_, rfl⟩
      have hsome := missing_eq_nil_iff.1 hmissing name hname
      obtain ⟨value, hvalue⟩ := Option.isSome_iff_exists.1 hsome
      rw [render, hvalue, String.ofList_toList]
    · cases hok
  · rintro ⟨value, hvalue, rfl⟩
    have hmissing : r.missing layout.pieces = [] :=
      missing_eq_nil_iff.2 fun name hname => by rw [hvalue name hname]; rfl
    rw [if_pos hmissing, fill_render hvalue]

/-- Otherwise it is refused with the names that have none. -/
theorem replace_eq_error_iff (h : layout.Of r sql) {e : PlanError} :
    r.replace sql = .error e ↔ ∃ names : List String, names ≠ [] ∧
      names.Pairwise (fun a b => Text.bytesOf a < Text.bytesOf b) ∧
      (∀ name, name ∈ names ↔ name.toList ∈ layout.names ∧ r.values.get? name = none) ∧
      e = refusal names := by
  simp only [Text.bytesOf_lt_iff]
  have hsorted : (r.missing layout.pieces).Pairwise (· < ·) := Dict.pairwise_keys _
  rw [replace_eq h]
  constructor
  · intro herror
    split at herror
    · cases herror
    · next hmissing =>
      cases herror
      exact ⟨_, hmissing, hsorted, fun _ => mem_missing_iff, rfl⟩
  · rintro ⟨names, hne, hpairwise, hmem, rfl⟩
    obtain rfl : names = r.missing layout.pieces :=
      hpairwise.eq_of_mem_iff hsorted fun name => (hmem name).trans mem_missing_iff.symm
    exact if_neg hne

/-- **Placeholders**: a script can be taken apart in exactly one way so that each placeholder is the
leftmost one in what is left of the script and has the shortest name there. If all the names have
values, these are put in their places; otherwise the script is refused with the names that have
none, each once, in the order of their bytes. A script in which no placeholder begins stays as it
is. -/
theorem replace_factored (r : Replacer) (sql : String) :
    (∃! layout : Layout, layout.Of r sql) ∧
      (∀ layout : Layout, layout.Of r sql →
        (∀ text, r.replace sql = .ok text ↔ ∃ value : List Char → List Char,
          (∀ name ∈ layout.names,
            r.values.get? (String.ofList name) = some (String.ofList (value name))) ∧
          text = String.ofList (layout.fill value)) ∧
        ∀ e, r.replace sql = .error e ↔ ∃ names : List String, names ≠ [] ∧
          names.Pairwise (fun a b => Text.bytesOf a < Text.bytesOf b) ∧
          (∀ name, name ∈ names ↔ name.toList ∈ layout.names ∧ r.values.get? name = none) ∧
          e = refusal names) ∧
      ((∀ n name, ¬ Begins r.opening.toList r.closing.toList name (sql.toList.drop n)) →
        r.replace sql = .ok sql) := by
  refine ⟨Layout.existsUnique_of r sql, fun layout h => ⟨fun _ => replace_eq_ok_iff h,
    fun _ => replace_eq_error_iff h⟩, fun hnone => ?_⟩
  have h : (Layout.last sql.toList).Of r sql := ⟨rfl, hnone⟩
  exact (replace_eq_ok_iff h).2 ⟨id, List.forall_mem_nil _, String.ofList_toList.symm⟩

/-- A replacer whose closing mark ends with the first character of the opening one. -/
def overlappingMarks : Replacer where
  values := Dict.ofList [("%(a", "1"), (")%(b", "%(a)%")]
  opening := "%("
  closing := ")%"

/-- A name may hold the opening mark, and an empty one takes in what stands before the next closing
mark. A value is not searched again. -/
theorem replace_factored_overlappingMarks :
    (Layout.more [] "%(a".toList (.more " ".toList ")%(b".toList (.last "; %(".toList))).Of
        overlappingMarks "%(%(a)% %()%(b)%; %(" ∧
      overlappingMarks.replace "%(%(a)% %()%(b)%; %(" = .ok "1 %(a)%; %(" := by
  have h : (Layout.more [] "%(a".toList (.more " ".toList ")%(b".toList (.last "; %(".toList))).Of
      overlappingMarks "%(%(a)% %()%(b)%; %(" := Layout.of_iff.2 (by decide)
  refine ⟨h, ((replace_factored overlappingMarks _).2.1 _ h).1 _ |>.2 ?_⟩
  exact ⟨fun name => if name = "%(a".toList then "1".toList else "%(a)%".toList, by decide, rfl⟩

end Replacer

end SchemaPlan
