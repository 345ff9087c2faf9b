import SchemaPlan.Proofs.Replacer

/-!
# Placeholders are found line by line

A name does not go beyond the end of a line. If the marks do not either, whether a placeholder
begins somewhere is decided within the line (`begins_append_cons_iff`). So the search finds in a
script what it finds in the parts before and behind the end of a line (`segments_append_lineEnd`),
whatever is left open in the first part: the induction is on the placeholders of that part, and
behind the last one there is plain text up to the end of the line. What is inserted and what is
missing are then those of the two parts together.
-/

namespace SchemaPlan

/-- What stands at the beginning of a text stands before a character that is not in it. -/
theorem Text.prefix_append_cons_iff {p s t : List Char} {c : Char} (hc : c ∉ p) :
    p <+: s ++ c :: t ↔ p <+: s := by
  constructor
  · intro h
    rcases List.prefix_or_prefix_of_prefix h (List.prefix_append s (c :: t)) with hps | ⟨r, rfl⟩
    · exact hps
    · rw [List.prefix_append_right_inj] at h
      cases r with
      | nil => rw [List.append_nil]
      | cons d r =>
        obtain ⟨rfl, -⟩ := List.cons_prefix_cons.1 h
        exact absurd (List.mem_append_right s List.mem_cons_self) hc
  · exact fun h => h.trans (List.prefix_append s (c :: t))

namespace Replacer

variable {opening closing name before s t : List Char} {c : Char} {layout : Layout}

/-! ### One line -/

/-- A character that ends a line. -/
def EndsLine (c : Char) : Prop := c = '\r' ∨ c = '\n'

/-- Some characters that do not go beyond the end of a line. -/
def OneLine (s : List Char) : Prop := ∀ c ∈ s, c ≠ '\r' ∧ c ≠ '\n'

theorem OneLine.not_mem (h : OneLine s) (hc : EndsLine c) : c ∉ s := fun hmem =>
  not_or.2 (h c hmem) hc

/-- Whether a placeholder begins somewhere does not depend on what stands behind the line. -/
theorem begins_append_cons_iff (hopening : OneLine opening) (hclosing : OneLine closing)
    (hc : EndsLine c) (name s t : List Char) :
    Begins opening closing name (s ++ c :: t) ↔ Begins opening closing name s := by
  refine and_congr_right fun hname => Text.prefix_append_cons_iff ?_
  have hline : OneLine name := hname.2
  simp only [List.mem_append, not_or]
  exact ⟨⟨hopening.not_mem hc, hline.not_mem hc⟩, hclosing.not_mem hc⟩

/-- Text in which no placeholder begins stays as it is, with the end of the line behind it. -/
theorem segmentsFrom_plain_append_cons (hopening : OneLine opening) (hclosing : OneLine closing)
    (hc : EndsLine c) (h : ∀ n name, ¬ Begins opening closing name (s.drop n)) :
    segmentsFrom opening closing 0 (s ++ c :: t) =
      s.map .plain ++ .plain c :: segmentsFrom opening closing 0 t := by
  have hplain : ∀ n < (s ++ [c]).length, ∀ name,
      ¬ Begins opening closing name ((s ++ [c] ++ t).drop n) := by
    intro n hn name
    rw [List.length_append, List.length_singleton, Nat.lt_succ_iff] at hn
    rw [List.append_assoc, List.singleton_append, List.drop_append_of_le_length hn,
      begins_append_cons_iff hopening hclosing hc]
    exact h n name
  have hsegments := segmentsFrom_plain hplain
  rwa [List.append_assoc, List.map_append, List.append_assoc] at hsegments

/-- The pieces of a part of a script are found whatever stands behind the end of the line. -/
theorem segmentsFrom_text_append_cons (hopening : OneLine opening) (hclosing : OneLine closing)
    (hc : EndsLine c) (h : layout.Leftmost opening closing) :
    segmentsFrom opening closing 0 (layout.text opening closing ++ c :: t) =
      layout.pieces ++ .plain c :: segmentsFrom opening closing 0 t := by
  have hbegins := begins_append_cons_iff (t := t) hopening hclosing hc
  induction layout with
  | last s => exact segmentsFrom_plain_append_cons hopening hclosing hc h
  | more before name rest ih =>
    obtain ⟨hshortest, hbefore, hrest⟩ := h
    have htext : (Layout.more before name rest).text opening closing ++ c :: t =
        before ++ (opening ++ name ++ closing ++ (rest.text opening closing ++ c :: t)) := by
      simp only [Layout.text, List.append_assoc]
    -- the placeholder and the text before it are found as without what is behind the line
    have hbefore' : ∀ n < before.length, ∀ name', ¬ Begins opening closing name'
        ((before ++ (opening ++ name ++ closing ++ (rest.text opening closing ++ c :: t))).drop
          n) := by
      intro n hn name'
      have hle : n ≤ (before ++ (opening ++ name ++ closing ++ rest.text opening closing)).length :=
        hn.le.trans (List.length_append ▸ Nat.le_add_right _ _)
      rw [← htext, Layout.text, List.drop_append_of_le_length hle, hbegins]
      exact hbefore n hn name'
    have hname : nameAt? opening closing
        (opening ++ name ++ closing ++ (rest.text opening closing ++ c :: t)) = some name := by
      rw [nameAt?_eq_some_iff, ← List.append_assoc]
      simpa only [Shortest, hbegins] using hshortest
    rw [htext, segmentsFrom_plain hbefore', segmentsFrom_append hname hshortest.1.1.1, ih hrest,
      Layout.pieces, List.append_assoc, List.cons_append]

/-! ### A script of two parts -/

/-- The marks of a replacer do not go beyond the end of a line. -/
structure OnOneLine (r : Replacer) : Prop where
  opening : OneLine r.opening.toList
  closing : OneLine r.closing.toList

/-- The texts that end a line. -/
def lineEnds : List String := ["\r", "\n", "\r\n"]

variable {r : Replacer}

theorem segments_append_cons (h : r.OnOneLine) (hc : EndsLine c) (s t : List Char) :
    r.segments (s ++ c :: t) = r.segments s ++ .plain c :: r.segments t := by
  obtain ⟨layout, rfl, hleftmost⟩ :=
    Layout.exists_leftmost r.opening.toList r.closing.toList s
  unfold segments
  rw [segmentsFrom_text_append_cons h.opening h.closing hc hleftmost, segmentsFrom_text hleftmost]

/-- **Step over the end of a line**: the pieces of a script are those of the part before the end of
a line, the end of the line, and those of the part behind it. -/
theorem segments_append_lineEnd (h : r.OnOneLine) {lineEnd : String} (hmem : lineEnd ∈ lineEnds)
    (a b : String) :
    r.segments (a ++ lineEnd ++ b).toList =
      r.segments a.toList ++ lineEnd.toList.map .plain ++ r.segments b.toList := by
  have hcr : EndsLine '\r' := .inl rfl
  have hlf : EndsLine '\n' := .inr rfl
  simp only [lineEnds, List.mem_cons, List.not_mem_nil, or_false] at hmem
  rw [String.toList_append, String.toList_append, List.append_assoc, List.append_assoc]
  rcases hmem with rfl | rfl | rfl
  · exact segments_append_cons h hcr _ _
  · exact segments_append_cons h hlf _ _
  · have hbehind : r.segments ('\n' :: b.toList) = .plain '\n' :: r.segments b.toList :=
      segments_append_cons h hlf [] _
    have hlist : "\r\n".toList = ['\r', '\n'] := rfl
    rw [hlist, List.cons_append, segments_append_cons h hcr, List.singleton_append, hbehind]
    rfl

theorem replace_eq_ok_iff_missingIn {sql text : String} :
    r.replace sql = .ok text ↔
      r.missingIn sql = [] ∧ text = String.ofList ((r.segments sql.toList).flatMap r.render) := by
  rw [replace_eq_missingIn]
  split
  · next hnil => rw [Except.ok.injEq, eq_comm, and_iff_right hnil]
  · next hne => exact iff_of_false (by rintro ⟨⟩) fun h => hne h.1

theorem replace_eq_error_iff_missingIn {sql : String} {e : PlanError} :
    r.replace sql = .error e ↔ r.missingIn sql ≠ [] ∧ e = refusal (r.missingIn sql) := by
  rw [replace_eq_missingIn]
  split
  · next hnil => exact iff_of_false (by rintro ⟨⟩) fun h => h.1 hnil
  · next hne => rw [Except.error.injEq, eq_comm, and_iff_right hne]

theorem mem_missing {name : String} {pieces : List Segment} :
    name ∈ r.missing pieces ↔ ∃ piece ∈ pieces, r.missingName? piece = some name := by
  rw [missing, Dict.mem_keys_ofList, List.map_map]
  simp [List.mem_filterMap]

/-- What is missing in a script is missing before or behind the end of a line. -/
theorem mem_missingIn_append (h : r.OnOneLine) {lineEnd : String} (hmem : lineEnd ∈ lineEnds)
    {a b name : String} :
    name ∈ r.missingIn (a ++ lineEnd ++ b) ↔ name ∈ r.missingIn a ∨ name ∈ r.missingIn b := by
  have hplain : ¬ ∃ piece ∈ lineEnd.toList.map Segment.plain, r.missingName? piece = some name := by
    rintro ⟨piece, hpiece, hname⟩
    obtain ⟨c, -, rfl⟩ := List.mem_map.1 hpiece
    cases hname
  simp only [missingIn, segments_append_lineEnd h hmem, mem_missing, List.mem_append,
    or_and_right, exists_or, hplain, or_false]

theorem missingIn_append_eq_nil_iff (h : r.OnOneLine) {lineEnd : String} (hmem : lineEnd ∈ lineEnds)
    {a b : String} :
    r.missingIn (a ++ lineEnd ++ b) = [] ↔ r.missingIn a = [] ∧ r.missingIn b = [] := by
  simp only [List.eq_nil_iff_forall_not_mem, mem_missingIn_append h hmem, not_or, forall_and]

/-! ### Line by line -/

/-- `names` are those of `xs` and of `ys`, each once and in the order of their bytes. -/
structure SortedUnion (names xs ys : List String) : Prop where
  ascending : names.Pairwise fun a b => Text.bytesOf a < Text.bytesOf b
  mem_iff (name : String) : name ∈ names ↔ name ∈ xs ∨ name ∈ ys

theorem sortedUnion_missingIn (h : r.OnOneLine) {lineEnd : String} (hmem : lineEnd ∈ lineEnds)
    (a b : String) :
    SortedUnion (r.missingIn (a ++ lineEnd ++ b)) (r.missingIn a) (r.missingIn b) where
  ascending := by
    simp only [Text.bytesOf_lt_iff]
    exact Dict.pairwise_keys _
  mem_iff _ := mem_missingIn_append h hmem

/-- **Replacing is local to a line**: where the marks do not go beyond the end of a line, a script
is replaced part by part, before and behind the end of a line. If one of the parts is refused, so is
the script; a script is refused for the names that are missing in it, and these are the names that
are missing in either part. -/
theorem replace_line_by_line (r : Replacer) (h : r.OnOneLine) (a b lineEnd : String)
    (hmem : lineEnd ∈ lineEnds) :
    (∀ x y, r.replace a = .ok x → r.replace b = .ok y →
      r.replace (a ++ lineEnd ++ b) = .ok (x ++ lineEnd ++ y)) ∧
    ((∃ e, r.replace a = .error e) ∨ (∃ e, r.replace b = .error e) →
      ∃ e, r.replace (a ++ lineEnd ++ b) = .error e) ∧
    (∀ sql e, r.replace sql = .error e ↔ r.missingIn sql ≠ [] ∧ e = refusal (r.missingIn sql)) ∧
    SortedUnion (r.missingIn (a ++ lineEnd ++ b)) (r.missingIn a) (r.missingIn b) := by
  refine ⟨fun x y hx hy => ?_, fun hfails => ?_, fun _ _ => replace_eq_error_iff_missingIn,
    sortedUnion_missingIn h hmem a b⟩
  · obtain ⟨ha, rfl⟩ := replace_eq_ok_iff_missingIn.1 hx
    obtain ⟨hb, rfl⟩ := replace_eq_ok_iff_missingIn.1 hy
    have hlineEnd : (lineEnd.toList.map Segment.plain).flatMap r.render = lineEnd.toList := by
      rw [List.flatMap_map]
      exact List.flatMap_singleton' _
    refine replace_eq_ok_iff_missingIn.2 ⟨(missingIn_append_eq_nil_iff h hmem).2 ⟨ha, hb⟩, ?_⟩
    rw [segments_append_lineEnd h hmem, List.flatMap_append, List.flatMap_append, hlineEnd,
      String.ofList_append, String.ofList_append, String.ofList_toList]
  · have hne : r.missingIn (a ++ lineEnd ++ b) ≠ [] := by
      rw [ne_eq, missingIn_append_eq_nil_iff h hmem, not_and_or]
      exact hfails.imp (fun ⟨e, he⟩ => (replace_eq_error_iff_missingIn.1 he).1)
        fun ⟨e, he⟩ => (replace_eq_error_iff_missingIn.1 he).1
    exact ⟨_, replace_eq_error_iff_missingIn.2 ⟨hne, rfl⟩⟩

/-- The first part leaves a placeholder open that the second one could close; in the other pair of
parts names are missing. -/
theorem replace_line_by_line_leftOpen :
    overlappingMarks.replace ("%(%(a)% %(" ++ "\r\n" ++ "a)% %()%(b)%") =
        .ok ("1 %(" ++ "\r\n" ++ "a)% %(a)%") ∧
      (∃ e, overlappingMarks.replace ("%(x)% %(" ++ "\r" ++ "b)% %(b)%") = .error e) ∧
      SortedUnion ["b", "x"] ["x"] ["b"] := by
  have hmarks : overlappingMarks.OnOneLine :=
    ⟨by simp [OneLine, overlappingMarks], by simp [OneLine, overlappingMarks]⟩
  obtain ⟨hok, -⟩ := replace_line_by_line overlappingMarks hmarks "%(%(a)% %(" "a)% %()%(b)%"
    "\r\n" (by decide)
  obtain ⟨-, herror, -, hunion⟩ := replace_line_by_line overlappingMarks hmarks "%(x)% %("
    "b)% %(b)%" "\r" (by decide)
  exact ⟨hok _ _ (by decide) (by decide), herror (.inl ⟨refusal ["x"], by decide⟩), hunion⟩

end Replacer

end SchemaPlan
