import SchemaPlan.Proofs.Location.NormalPaths

/-!
# Which locations lie inside others

That one location encloses another is decided by the text of their paths. In normal form the text
says what it should: in memory the segments of the outer location are the first ones of the inner
location, which has more (`encloses_iff_segments`), and on disk the path of the inner location goes
on with a slash behind that of the outer one, or the outer one is the root (`encloses_iff_slash`).
-/

namespace SchemaPlan.Location

variable {k l : Location} {ss ts : List (List Char)}

/-! ### Packages -/

theorem pathOf_append (hss : ss ≠ []) (hts : ts ≠ []) :
    pathOf (ss ++ ts) = pathOf ss ++ "/" ++ pathOf ts := by
  rw [pathOf, List.map_append, String.intercalate_append_of_ne_nil (by simpa) (by simpa)]
  rfl

theorem pathOf_eq_empty_iff (hss : ∀ s ∈ ss, IsSegment s) : pathOf ss = "" ↔ ss = [] := by
  constructor
  · intro h
    rw [← segments_pathOf hss, h]
    rfl
  · rintro rfl
    rfl

theorem pathOf_inj (hss : ∀ s ∈ ss, IsSegment s) (hts : ∀ s ∈ ts, IsSegment s) :
    pathOf ss = pathOf ts ↔ ss = ts := by
  refine ⟨fun h => ?_, congrArg pathOf⟩
  rw [← segments_pathOf hss, h, segments_pathOf hts]

/-- Behind the path of some segments and a slash a path goes on exactly if it has further segments.
-/
theorem slash_prefix_iff (hss : ∀ s ∈ ss, IsSegment s) (hts : ∀ s ∈ ts, IsSegment s)
    (hne : ss ≠ []) (hdiffer : ss ≠ ts) :
    (pathOf ss).toList ++ ['/'] <+: (pathOf ts).toList ↔ ss <+: ts := by
  constructor
  · rintro ⟨rest, hrest⟩
    rw [List.append_assoc, List.singleton_append] at hrest
    -- what follows the slash spells the further segments
    have hsegments := segments_append_slash (pathOf ss).toList rest
    rw [hrest, String.ofList_toList, String.ofList_toList, segments_pathOf hts,
      segments_pathOf hss] at hsegments
    exact ⟨_, hsegments.symm⟩
  · rintro ⟨us, rfl⟩
    have hus : us ≠ [] := by
      rintro rfl
      exact hdiffer (List.append_nil ss).symm
    rw [pathOf_append hne hus, String.toList_append, String.toList_append]
    exact List.prefix_append _ _

/-- In memory a location encloses those with further segments. -/
theorem encloses_iff_segments (hk : k.Normal) (hl : l.Normal) (hkmem : k.isEmbedded)
    (hlmem : l.isEmbedded) :
    k.encloses l ↔
      segments k.path <+: segments l.path ∧ segments k.path ≠ segments l.path := by
  have hmade := made_iff_normal.2 hk
  rw [encloses_iff hmade hkmem, and_iff_right hlmem, and_comm]
  cases hk with
  | filesystem => cases hkmem
  | @embedded ss hss =>
    cases hl with
    | filesystem => cases hlmem
    | @embedded ts hts =>
      show _ ∧ pathOf ss ≠ pathOf ts ↔ segments (pathOf ss) <+: segments (pathOf ts) ∧
        segments (pathOf ss) ≠ segments (pathOf ts)
      rw [segments_pathOf hss, segments_pathOf hts, ne_eq, pathOf_inj hss hts]
      refine and_congr_left fun hdiffer => ?_
      by_cases hne : ss = []
      · rw [hne, base_of_path_eq rfl]
        exact iff_of_true List.nil_prefix List.nil_prefix
      · rw [toList_base_of_path_ne (mt (pathOf_eq_empty_iff hss).1 hne)]
        exact slash_prefix_iff hss hts hne hdiffer

theorem encloses_of_path_eq_empty (hkmem : k.isEmbedded) (hlmem : l.isEmbedded)
    (hempty : k.path = "") (hne : l ≠ k) : k.encloses l := by
  have hkmedium : k.medium = .embedded := of_decide_eq_true hkmem
  have hlmedium : l.medium = .embedded := of_decide_eq_true hlmem
  refine encloses_iff_text.2 ⟨hkmedium.trans hlmedium.symm, fun hpath => hne ?_,
    .inl ⟨hkmem, hempty⟩⟩
  exact eq_of_path_eq hlmem hkmem hpath.symm

/-! ### Directories -/

/-- The root is the only directory with a slash at the end of its path. -/
theorem Normal.path_eq_slash (hk : k.Normal) (hdisk : k.isFilesystem)
    (hslash : ['/'] <:+ k.path.toList) : k.path = "/" := by
  obtain ⟨front, hfront⟩ := hslash
  cases hk with
  | embedded => cases hdisk
  | filesystem hne htrimmed =>
    rcases htrimmed with hlast | ⟨c, -, rfl⟩
    · exact absurd rfl (hlast '/' (by rw [← hfront, List.getLast?_concat]; rfl))
    · rw [String.toList_singleton, ← List.nil_append [c]] at hfront
      obtain ⟨-, hc⟩ := List.append_inj' hfront rfl
      rw [← List.head_eq_of_cons_eq hc]
      rfl

/-- By the text alone, the path of the inner one of two directories goes on behind that of the outer
one, and a slash ends the one part or begins the other. -/
theorem encloses_iff_append (hkdisk : k.isFilesystem) (hldisk : l.isFilesystem) :
    k.encloses l ↔ ∃ rest, rest ≠ "" ∧ l.path = k.path ++ rest ∧
      (['/'] <+: rest.toList ∨ ['/'] <:+ k.path.toList) := by
  have hkmedium : k.medium = .filesystem := of_decide_eq_true hkdisk
  have hlmedium : l.medium = .filesystem := of_decide_eq_true hldisk
  rw [encloses_iff_text, hkmedium, hlmedium, and_iff_right rfl]
  constructor
  · rintro ⟨hpath, ⟨hmemory, -⟩ | ⟨rest, hrest, hslash⟩⟩
    · rw [isEmbedded, hkmedium] at hmemory
      cases hmemory
    · have hl : l.path = k.path ++ String.ofList rest := by
        rw [← String.toList_inj, String.toList_append, String.toList_ofList, hrest]
      refine ⟨String.ofList rest, fun hempty => hpath ?_, hl, by rwa [String.toList_ofList]⟩
      rw [hl, hempty, String.append_empty]
  · rintro ⟨rest, hne, hrest, hslash⟩
    refine ⟨fun hpath => hne ?_, .inr ⟨rest.toList, by rw [hrest, String.toList_append], hslash⟩⟩
    rw [hpath] at hrest
    exact String.append_eq_left_iff.1 hrest.symm

/-- On disk a location encloses those whose path goes on with a slash, and the root encloses any
other one with a path from the root. -/
theorem encloses_iff_slash (hk : k.Normal) (hkdisk : k.isFilesystem) (hldisk : l.isFilesystem) :
    k.encloses l ↔
      (∃ rest, l.path = k.path ++ ("/" ++ rest)) ∨
        k.path = "/" ∧ ∃ rest, rest ≠ "" ∧ l.path = "/" ++ rest := by
  rw [encloses_iff_append hkdisk hldisk]
  constructor
  · rintro ⟨rest, hne, hrest, ⟨behind, hbehind⟩ | hslash⟩
    · have hsplit : rest = "/" ++ String.ofList behind := by
        rw [← String.toList_inj, ← hbehind, String.toList_append,
          String.toList_ofList (l := behind)]
        rfl
      exact .inl ⟨String.ofList behind, by rw [hrest, hsplit]⟩
    · have hroot := hk.path_eq_slash hkdisk hslash
      exact .inr ⟨hroot, rest, hne, by rw [hrest, hroot]⟩
  · rintro (⟨rest, hrest⟩ | ⟨hroot, rest, hne, hrest⟩)
    · exact ⟨"/" ++ rest, by simp, hrest, .inl ⟨rest.toList, by rw [String.toList_append]; rfl⟩⟩
    · exact ⟨rest, hne, by rw [hrest, hroot], .inr ⟨[], by rw [hroot]; rfl⟩⟩

/-! ### All locations -/

theorem encloses_irrefl (l : Location) : ¬ l.encloses l := fun h =>
  (encloses_iff_text.1 h).2.1 rfl

theorem encloses_asymm (h : k.encloses l) : ¬ l.encloses k := fun h' =>
  encloses_irrefl k (encloses_trans h h')

/-- **Nesting**: among the locations that can be read, enclosing is a strict order of the locations
of either medium. In memory it is the order of their lists of segments by which the shorter one
begins the longer one, so that the empty path is outside of all others. On disk a location encloses
those whose path goes on with a slash behind its own path, and the root encloses any other one with
a path that begins with a slash. -/
theorem nesting_of_parse {outer inner : String} (hk : parse outer = .ok k)
    (hl : parse inner = .ok l) :
    ¬ k.encloses k ∧ (k.encloses l → ¬ l.encloses k) ∧
      (∀ m, k.encloses l → l.encloses m → k.encloses m) ∧
      (k.encloses l → k.medium = l.medium) ∧
      (k.isEmbedded → l.isEmbedded →
        (k.encloses l ↔
          segments k.path <+: segments l.path ∧ segments k.path ≠ segments l.path) ∧
        (k.path = "" → l ≠ k → k.encloses l)) ∧
      (k.isFilesystem → l.isFilesystem →
        (k.encloses l ↔
          (∃ rest, l.path = k.path ++ ("/" ++ rest)) ∨
            k.path = "/" ∧ ∃ rest, rest ≠ "" ∧ l.path = "/" ++ rest)) := by
  have hknormal := exists_parse_iff_normal.1 ⟨outer, hk⟩
  have hlnormal := exists_parse_iff_normal.1 ⟨inner, hl⟩
  refine ⟨encloses_irrefl k, encloses_asymm, fun m => encloses_trans,
    fun h => (encloses_iff_text.1 h).1, fun hkmem hlmem => ⟨?segments, ?empty⟩, ?slash⟩
  case segments => exact encloses_iff_segments hknormal hlnormal hkmem hlmem
  case empty => exact encloses_of_path_eq_empty hkmem hlmem
  case slash => exact encloses_iff_slash hknormal

/-- A package in another one, and a directory in the root. -/
theorem nesting_of_parse_packageAndRoot :
    let db : Location := ⟨.embedded, "db"⟩
    let old : Location := ⟨.embedded, "db/old"⟩
    let root : Location := ⟨.filesystem, "/"⟩
    let srv : Location := ⟨.filesystem, "/srv"⟩
    parse "embedded:/db" = .ok db ∧ parse "embedded:db..old" = .ok old ∧ db.encloses old ∧
      parse "//" = .ok root ∧ parse "filesystem:/srv/" = .ok srv ∧ root.encloses srv ∧
      ¬ srv.encloses root := by
  intro db old root srv
  have hdb : parse "embedded:/db" = .ok db := by decide
  have hold : parse "embedded:db..old" = .ok old := by decide
  have hroot : parse "//" = .ok root := by decide
  have hsrv : parse "filesystem:/srv/" = .ok srv := by decide
  obtain ⟨-, -, -, -, hmemory, -⟩ := nesting_of_parse hdb hold
  obtain ⟨-, hasymm, -, -, -, hdisk⟩ := nesting_of_parse hroot hsrv
  have hpackage : db.encloses old := (hmemory rfl rfl).1.2 ⟨by decide, by decide⟩
  have hdirectory : root.encloses srv :=
    (hdisk rfl rfl).2 (.inr ⟨rfl, "srv", by decide, by decide⟩)
  exact ⟨hdb, hold, hpackage, hroot, hsrv, hdirectory, hasymm hdirectory⟩

end SchemaPlan.Location
