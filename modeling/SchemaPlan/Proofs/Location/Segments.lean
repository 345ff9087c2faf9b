import SchemaPlan.Location
import SchemaPlan.Proofs.Text.Search

/-!
# Segments of embedded paths

The path of an embedded location is spelled with slashes or dots between its segments and around
them, as many of them in a row as one likes (`Spells`). It has one list of segments (`spells_iff`),
and any segments have a path, in which single slashes join them (`segments_pathOf`). So an embedded
location is known by its segments: two spellings are of one location exactly if these are the same
(`embedded_eq_iff`).
-/

namespace SchemaPlan.Location

variable {path : String} {c : Char} {s rest : List Char} {ss : List (List Char)}

/-! ### Spellings -/

/-- A segment of an embedded path. -/
structure IsSegment (s : List Char) : Prop where
  ne_nil : s ≠ []
  noSlash : '/' ∉ s
  noDot : '.' ∉ s

/-- `Spells path ss`: between the slashes and dots of `path` there are the segments `ss`. -/
inductive Spells : List Char → List (List Char) → Prop where
  /-- In the empty path there is none. -/
  | nil : Spells [] []
  /-- Slashes and dots may stand anywhere. -/
  | divider {c : Char} {path : List Char} {ss : List (List Char)} (hc : c = '/' ∨ c = '.')
      (h : Spells path ss) : Spells (c :: path) ss
  /-- A segment goes on up to the next slash or dot, or to the end of the path. -/
  | segment {s path : List Char} {ss : List (List Char)} (hs : IsSegment s)
      (hend : ∀ c ∈ path.head?, c = '/' ∨ c = '.') (h : Spells path ss) :
      Spells (s ++ path) (s :: ss)

theorem IsSegment.undivided (hs : IsSegment s) (hc : c ∈ s) :
    decide (c = '/' ∨ c = '.') = false := by
  refine decide_eq_false ?_
  rintro (rfl | rfl)
  · exact hs.noSlash hc
  · exact hs.noDot hc

theorem isSegment_of_undivided (hne : s ≠ []) (h : ∀ c ∈ s, decide (c = '/' ∨ c = '.') = false) :
    IsSegment s where
  ne_nil := hne
  noSlash hslash := absurd (h _ hslash) (by decide)
  noDot hdot := absurd (h _ hdot) (by decide)

theorem isSegment_of_mem_segments (h : s ∈ segments path) : IsSegment s := by
  obtain ⟨hs, hne⟩ := List.mem_filter.1 h
  exact isSegment_of_undivided (by simpa using hne) fun c hc => Text.not_of_mem_splitOnP hs hc

theorem segments_divider (hc : c = '/' ∨ c = '.') (s : List Char) :
    segments (String.ofList (c :: s)) = segments (String.ofList s) := by
  rw [segments, segments, String.toList_ofList, String.toList_ofList,
    List.splitOnP_cons_eq_if_modifyHead, if_pos (decide_eq_true hc)]
  rfl

theorem segments_append_slash (s t : List Char) :
    segments (String.ofList (s ++ '/' :: t)) =
      segments (String.ofList s) ++ segments (String.ofList t) := by
  rw [segments, String.toList_ofList, List.splitOnP_append_cons s t (by decide),
    List.filter_append, segments, segments, String.toList_ofList, String.toList_ofList]

theorem segments_segment (hs : IsSegment s) (hend : ∀ c ∈ rest.head?, c = '/' ∨ c = '.') :
    segments (String.ofList (s ++ rest)) = s :: segments (String.ofList rest) := by
  have hkept : ∀ pieces : List (List Char),
      (s :: pieces).filter (!·.isEmpty) = s :: pieces.filter (!·.isEmpty) :=
    fun pieces => List.filter_cons_of_pos (by simpa using hs.ne_nil)
  cases rest with
  | nil =>
    rw [segments, String.toList_ofList, List.append_nil,
      List.splitOnP_eq_singleton fun c hc => hs.undivided hc, hkept]
    rfl
  | cons c rest =>
    have hc : c = '/' ∨ c = '.' := hend c rfl
    rw [segments_divider hc, segments, segments, String.toList_ofList, String.toList_ofList,
      List.splitOnP_append_cons_of_forall_mem (fun d hd => hs.undivided hd) c (by simpa using hc),
      hkept]

theorem Spells.segments_eq (h : Spells s ss) : segments (String.ofList s) = ss := by
  induction h with
  | nil => rfl
  | divider hc _ ih => rw [segments_divider hc, ih]
  | segment hs hend _ ih => rw [segments_segment hs hend, ih]

/-- What stands before a slash or a dot is a segment, or nothing. -/
theorem spells_append (hs : ∀ c ∈ s, decide (c = '/' ∨ c = '.') = false)
    (hend : ∀ c ∈ rest.head?, c = '/' ∨ c = '.')
    (h : Spells rest (segments (String.ofList rest))) :
    Spells (s ++ rest) (segments (String.ofList (s ++ rest))) := by
  by_cases hne : s = []
  · rwa [hne, List.nil_append]
  · have hsegment := isSegment_of_undivided hne hs
    rw [segments_segment hsegment hend]
    exact .segment hsegment hend h

theorem spells_segments (s : List Char) : Spells s (segments (String.ofList s)) := by
  induction s using Text.splitOnP_induction (p := fun c => decide (c = '/' ∨ c = '.')) with
  | last part hpart =>
    have h : Spells (part ++ []) (segments (String.ofList (part ++ []))) :=
      spells_append hpart (by simp) .nil
    rwa [List.append_nil] at h
  | more part c rest hpart hc ih =>
    have hc : c = '/' ∨ c = '.' := of_decide_eq_true hc
    refine spells_append hpart (by simpa using hc) ?_
    rw [segments_divider hc]
    exact .divider hc ih

/-- A path has one list of segments. -/
theorem spells_iff : Spells path.toList ss ↔ segments path = ss := by
  refine ⟨fun h => ?_, ?_⟩
  · rw [← h.segments_eq, String.ofList_toList]
  · rintro rfl
    have h := spells_segments path.toList
    rwa [String.ofList_toList] at h

example : segments "/db..migration/" = ["db".toList, "migration".toList] := by decide

/-! ### Paths of segments -/

/-- The path of some segments. -/
def pathOf (ss : List (List Char)) : String := "/".intercalate (ss.map String.ofList)

theorem toList_pathOf (ss : List (List Char)) : (pathOf ss).toList = ['/'].intercalate ss := by
  have hsame : String.toList ∘ String.ofList = id := funext fun _ => String.toList_ofList
  rw [pathOf, String.toList_intercalate, List.map_map, hsame, List.map_id]
  rfl

theorem embedded_eq (path : String) : embedded path = ⟨.embedded, pathOf (segments path)⟩ := by
  rw [embedded, ← toList_pathOf, String.ofList_toList]

/-- Segments are spelled by joining them. -/
theorem spells_pathOf (h : ∀ s ∈ ss, IsSegment s) : Spells (pathOf ss).toList ss := by
  rw [toList_pathOf]
  induction ss with
  | nil => exact .nil
  | cons s ss ih =>
    obtain ⟨hs, hss⟩ := List.forall_mem_cons.1 h
    cases ss with
    | nil =>
      rw [List.intercalate_singleton]
      have hspells : Spells (s ++ []) [s] := .segment hs (by simp) .nil
      rwa [List.append_nil] at hspells
    | cons t ss =>
      rw [List.intercalate_cons_cons, List.append_assoc]
      exact .segment hs (by simp) (.divider (.inl rfl) (ih hss))

theorem segments_pathOf (h : ∀ s ∈ ss, IsSegment s) : segments (pathOf ss) = ss :=
  spells_iff.1 (spells_pathOf h)

theorem embedded_pathOf (h : ∀ s ∈ ss, IsSegment s) :
    embedded (pathOf ss) = ⟨.embedded, pathOf ss⟩ := by
  rw [embedded_eq, segments_pathOf h]

/-- The segments of a normal embedded path are those of the path it was made from. -/
theorem segments_embedded (path : String) : segments (embedded path).path = segments path := by
  rw [embedded_eq, segments_pathOf fun s hs => isSegment_of_mem_segments hs]

/-- Two spellings are of one location exactly if they have the same segments. -/
theorem embedded_eq_iff {path' : String} :
    embedded path' = embedded path ↔ segments path' = segments path := by
  constructor
  · intro h
    rw [← segments_embedded path', h, segments_embedded]
  · intro h
    rw [embedded_eq, h, embedded_eq]

end SchemaPlan.Location
