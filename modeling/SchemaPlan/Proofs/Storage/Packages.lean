import SchemaPlan.Proofs.Location.ReadingBack
import SchemaPlan.Proofs.Storage.Additions
import SchemaPlan.Proofs.Storage.Holds
import SchemaPlan.Proofs.Text.ByteOrder

/-!
# What is found in packages

Resources are added one after the other, and of those with one path the last one is kept
(`get?_addAll`). A scan of a package reads off one range of the paths in their order. It misses no
path below the package and cuts each of them between two characters (`rangeWhole`), so it finds
exactly the resources that are to be found, in the order of their paths below the package
(`scan_finds_lastAdded`).

The directory of a resource is a package that can be scanned, under its own path, exactly if there
is no dot in that path (`addressable_iff`): between the segments of a package a dot is as good as a
slash, while it stays in the path that a resource is kept under.
-/

namespace SchemaPlan

namespace Bundle

variable {written path relative front back : String} {content : List UInt8}
  {added : List (String × List UInt8)} {resources : Bundle} {l : Location}

/-! ### What is kept -/

/-- Whether a resource that is added under the path `written` is kept under `path`, which is the
same without the slashes at the front. -/
structure KeptUnder (written path : String) : Prop where
  written_eq : ∃ n, written.toList = List.replicate n '/' ++ path.toList
  head_ne : path.toList.head? ≠ some '/'

theorem keptUnder_iff : KeptUnder written path ↔ path = key written := by
  constructor
  · rintro ⟨⟨n, hwritten⟩, hhead⟩
    have hslashes : ∀ c ∈ List.replicate n '/', decide (c = '/') = true := fun c hc =>
      decide_eq_true (List.eq_of_mem_replicate hc)
    have hrest : path.toList.dropWhile (fun c => decide (c = '/')) = path.toList := by
      cases hpath : path.toList with
      | nil => rfl
      | cons c rest =>
        rw [hpath, List.head?_cons, ne_eq, Option.some.injEq] at hhead
        exact List.dropWhile_cons_of_neg (by simpa using hhead)
    rw [key, hwritten, List.dropWhile_append_of_pos hslashes, hrest, String.ofList_toList]
  · rintro rfl
    refine ⟨⟨(written.toList.takeWhile (· = '/')).length, ?_⟩, ?_⟩
    · have hslashes : written.toList.takeWhile (· = '/') =
          List.replicate (written.toList.takeWhile (· = '/')).length '/' :=
        List.eq_replicate_of_mem fun c hc =>
          of_decide_eq_true (List.all_eq_true.1 List.all_takeWhile c hc)
      rw [key, String.toList_ofList, ← hslashes, List.takeWhile_append_dropWhile]
    · rw [key, String.toList_ofList]
      intro hhead
      have hnot := List.head?_dropWhile_not (fun c => decide (c = '/')) written.toList
      rw [hhead] at hnot
      simp at hnot

/-- Whether a content has been added under a path, slashes at the front not counted, and no other
one after it. -/
def LastAdded (added : List (String × List UInt8)) (path : String) (content : List UInt8) : Prop :=
  ∃ before written after, added = before ++ (written, content) :: after ∧ KeptUnder written path ∧
    ∀ r ∈ after, ¬ KeptUnder r.1 path

theorem lastAdded_concat {r : String × List UInt8} :
    LastAdded (added ++ [r]) path content ↔
      KeptUnder r.1 path ∧ r.2 = content ∨ ¬ KeptUnder r.1 path ∧ LastAdded added path content := by
  constructor
  · rintro ⟨before, written, after, hadded, hkept, hlast⟩
    rcases List.eq_nil_or_concat after with rfl | ⟨after, r', rfl⟩
    · obtain ⟨rfl, hr⟩ := List.append_inj' hadded rfl
      cases hr
      exact .inl ⟨hkept, rfl⟩
    · rw [List.concat_eq_append, ← List.cons_append, ← List.append_assoc] at hadded
      obtain ⟨rfl, hr⟩ := List.append_inj' hadded rfl
      cases hr
      refine .inr ⟨hlast r (by simp), before, written, after, rfl, hkept, fun r' hr' => ?_⟩
      exact hlast r' (by simp [hr'])
  · rintro (⟨hkept, rfl⟩ | ⟨hother, before, written, after, rfl, hkept, hlast⟩)
    · exact ⟨added, r.1, [], rfl, hkept, List.forall_mem_nil _⟩
    · refine ⟨before, written, after ++ [r], by simp, hkept, fun r' hr' => ?_⟩
      rcases List.mem_append.1 hr' with hr' | hr'
      · exact hlast r' hr'
      · rwa [List.mem_singleton.1 hr']

/-- What is kept under a path is what was added last. -/
theorem get?_addAll :
    (({} : Bundle).addAll added).entries.get? path = some content ↔
      LastAdded added path content := by
  induction added using List.reverseRecOn with
  | nil =>
    refine iff_of_false (by rintro ⟨⟩) ?_
    rintro ⟨before, written, after, hadded, -⟩
    exact List.append_ne_nil_of_right_ne_nil before (List.cons_ne_nil _ after) hadded.symm
  | append_singleton added r ih =>
    have hadd : (({} : Bundle).addAll (added ++ [r])).entries =
        (({} : Bundle).addAll added).entries.insert (key r.1) r.2 := by
      rw [addAll, List.foldl_append]
      rfl
    rw [hadd, Dict.get?_insert, lastAdded_concat, keptUnder_iff, ← ih]
    by_cases hkey : path = key r.1
    · simp [hkey]
    · simp [hkey]

/-! ### What is looked for -/

/-- Whether a path is that of a location with the path `relative` added; everything is below the
location of the empty path. -/
def IsBelow (l : Location) (path relative : String) : Prop :=
  l.path = "" ∧ path = relative ∨ l.path ≠ "" ∧ path = l.path ++ "/" ++ relative

theorem isBelow_iff : IsBelow l path relative ↔ path = base l ++ relative := by
  unfold IsBelow base
  by_cases hl : l.path = ""
  · simp [hl]
  · simp [hl]

/-- Whether the last segment of a path begins with `front` and ends with `back`, without an overlap
of the two. -/
def Named (front back path : String) : Prop :=
  ∃ dirs mid, path = dirs ++ (front ++ mid ++ back) ∧ '/' ∉ (front ++ mid ++ back).toList ∧
    (dirs = "" ∨ ∃ up, dirs = up ++ "/")

/-- A path ends with its last segment, and what stands before it ends with a slash. -/
theorem exists_eq_append_lastSegment (path : String) :
    ∃ dirs, path = dirs ++ lastSegment path ∧ (dirs = "" ∨ ∃ up, dirs = up ++ "/") := by
  let behind := path.toList.reverse.takeWhile (· ≠ '/')
  let rest := path.toList.reverse.dropWhile (· ≠ '/')
  have hsplit : path.toList = rest.reverse ++ behind.reverse := by
    rw [← List.reverse_append, List.takeWhile_append_dropWhile, List.reverse_reverse]
  refine ⟨String.ofList rest.reverse, ?_, ?_⟩
  · rw [← String.toList_inj, String.toList_append, String.toList_ofList, lastSegment,
      String.toList_ofList]
    exact hsplit
  · have hnot := List.head?_dropWhile_not (fun c => decide (c ≠ '/')) path.toList.reverse
    cases hrest : rest with
    | nil => exact .inl rfl
    | cons c up =>
      have hdrop : path.toList.reverse.dropWhile (fun c => decide (c ≠ '/')) = c :: up := hrest
      rw [hdrop] at hnot
      have hslash : c = '/' := by simpa using hnot
      refine .inr ⟨String.ofList up.reverse, ?_⟩
      rw [← String.toList_inj, hslash]
      simp

theorem lastSegment_append {dirs name : String} (hname : '/' ∉ name.toList)
    (hdirs : dirs = "" ∨ ∃ up, dirs = up ++ "/") : lastSegment (dirs ++ name) = name := by
  rcases hdirs with rfl | ⟨up, rfl⟩
  · rw [String.empty_append, lastSegment_eq_self hname]
  · refine (@lastSegment_eq_of_append _ _ up.toList ?_).trans (lastSegment_eq_self hname)
    simp

theorem named_iff : Named front back path ↔ hasAffixes front back (lastSegment path) := by
  rw [hasAffixes_iff_eq_append]
  constructor
  · rintro ⟨dirs, mid, rfl, hname, hdirs⟩
    exact ⟨mid, lastSegment_append hname hdirs⟩
  · rintro ⟨mid, hmid⟩
    obtain ⟨dirs, hpath, hdirs⟩ := exists_eq_append_lastSegment path
    have hslash := slash_not_mem_lastSegment path
    rw [hmid] at hpath hslash
    exact ⟨dirs, mid, hpath, hslash, hdirs⟩

/-! ### What is found -/

theorem mem_found_iff {r : Resource} :
    r ∈ resources.found l front back ↔ ∃ path content,
      resources.entries.get? path = some content ∧ IsBelow l path r.path ∧
        Named front back path ∧ r = .inMemory r.path (Medium.embedded.scheme ++ path) content := by
  simp only [found_eq, List.mem_map, List.mem_filter, mem_below_iff, Dict.get?_eq_some_iff,
    isBelow_iff, named_iff]
  constructor
  · rintro ⟨⟨path, content⟩, ⟨⟨hkept, rest, hrest⟩, hname⟩, rfl⟩
    obtain rfl : base l ++ String.ofList rest = path := by
      rw [← String.toList_inj, String.toList_append, String.toList_ofList, hrest]
    rw [resource_append]
    exact ⟨_, content, hkept, rfl, hname, rfl⟩
  · rintro ⟨path, content, hkept, hpath, hname, hr⟩
    refine ⟨(path, content), ⟨⟨hkept, ?_⟩, hname⟩, ?_⟩
    · rw [hpath, String.toList_append]
      exact List.prefix_append _ _
    · rw [hpath, resource_append, ← hpath, ← hr]

/-- Paths with a common beginning are in the order of what follows it. -/
theorem lt_of_append_lt_append {a b : String} (h : front ++ a < front ++ b) : a < b := by
  rcases lt_trichotomy a b with hlt | rfl | hgt
  · exact hlt
  · exact absurd h (String.lt_irrefl _)
  · exact absurd h (String.lt_asymm (append_lt_append hgt))

theorem pairwise_found (resources : Bundle) (l : Location) (front back : String) :
    (resources.found l front back).Pairwise
      fun a b => Text.bytesOf a.path < Text.bytesOf b.path := by
  simp only [Text.bytesOf_lt_iff]
  rw [found_eq, List.pairwise_map]
  have hbelow : (resources.below l).Pairwise fun a b => a.1 < b.1 :=
    resources.entries.ascending.sublist List.filter_sublist
  refine (hbelow.filter _).imp_of_mem fun {a b} ha hb hlt => ?_
  have hpath : ∀ e ∈ (resources.below l).filter fun e => hasAffixes front back (lastSegment e.1),
      e.1 = base l ++ (resource (base l) e).path := by
    intro e he
    rw [← String.toList_inj, String.toList_append]
    exact toList_eq_append_path (mem_below_iff.1 (List.mem_filter.1 he).1).2
  rw [hpath a ha, hpath b hb] at hlt
  exact lt_of_append_lt_append hlt

/-- Whether the range of a location holds every path with the bytes of `base` at its front, and
whole characters are left of these paths when the bytes are cut off. -/
structure RangeWhole (resources : Bundle) (l : Location) : Prop where
  complete : ∀ e ∈ resources.entries.toList, Text.bytesOf (base l) <+: Text.bytesOf e.1 →
    e ∈ resources.range (base l)
  sliced : ∀ e ∈ resources.range (base l),
    Text.bytesOf e.1 = Text.bytesOf (base l) ++ Text.bytesOf (resource (base l) e).path

theorem rangeWhole (resources : Bundle) (l : Location) : resources.RangeWhole l where
  complete e he := by
    rintro ⟨bytes, hbytes⟩
    obtain ⟨rest, hrest, -⟩ := Text.append_eq_encode_iff.1 hbytes
    rw [range_eq_filter, List.mem_filter, Text.startsWith_iff]
    exact ⟨he, rest, hrest.symm⟩
  sliced e he := by
    rw [range_eq_filter, List.mem_filter, Text.startsWith_iff] at he
    rw [Text.bytesOf, toList_eq_append_path he.2, Text.encode_append]
    rfl

/-- **Scans of packages**: a scan finds each resource that was the last one added under its path,
is below the package and has a name with the wanted beginning and end. Each of them is found once,
under its path below the package, and they are in the order of the bytes of these paths. Nothing is
missed by the range that is read off, and no path is cut within a character. -/
theorem scan_finds_lastAdded (added : List (String × List UInt8)) (hl : l.isEmbedded)
    (front back : String) :
    (({} : Bundle).addAll added).RangeWhole l ∧
      ∃ found, ((({} : Bundle).addAll added).scan l front back).result = .ok found ∧
        (∀ r, r ∈ found ↔ ∃ path content, LastAdded added path content ∧ IsBelow l path r.path ∧
          Named front back path ∧ r = .inMemory r.path ("embedded:" ++ path) content) ∧
        found.Pairwise fun a b => Text.bytesOf a.path < Text.bytesOf b.path := by
  refine ⟨rangeWhole _ l, _, (result_scan _ l front back).trans (congrArg _ (if_pos hl)),
    fun r => ?_, pairwise_found _ l front back⟩
  simp only [mem_found_iff, get?_addAll]
  rfl

/-- Additions to a package and next to it. -/
def besideSiblings : List (String × List UInt8) :=
  [("/db/V1__a.sql", [1]), ("dbx/V3__c.sql", [3]), ("db-x/V4__d.sql", [4]),
    ("db/é/V2__b.sql", [2]), ("db/R__v.sql", [6]), ("db/V1__a.sql", [5])]

theorem scan_finds_lastAdded_besideSiblings :
    (({} : Bundle).addAll besideSiblings).RangeWhole ⟨.embedded, "db"⟩ ∧
      (∀ r, r ∈ [Resource.inMemory "V1__a.sql" "embedded:db/V1__a.sql" [5],
          .inMemory "é/V2__b.sql" "embedded:db/é/V2__b.sql" [2]] ↔
        ∃ path content, LastAdded besideSiblings path content ∧
          IsBelow ⟨.embedded, "db"⟩ path r.path ∧ Named "V" ".sql" path ∧
          r = .inMemory r.path ("embedded:" ++ path) content) := by
  obtain ⟨hwhole, found, hfound, hmem, -⟩ :=
    scan_finds_lastAdded besideSiblings (l := ⟨.embedded, "db"⟩) rfl "V" ".sql"
  refine ⟨hwhole, ?_⟩
  cases (Except.ok.inj hfound : _ = found)
  exact hmem

/-! ### Scanning a directory of resources -/

/-- Whether a path is made of nonempty segments with slashes between them. -/
def IsSegmented (path : String) : Prop :=
  ∃ ss : List String, (∀ s ∈ ss, s ≠ "" ∧ '/' ∉ s.toList) ∧ path = "/".intercalate ss

theorem head?_ne_of_isSegmented (h : IsSegmented path) : path.toList.head? ≠ some '/' := by
  obtain ⟨ss, hss, rfl⟩ := h
  cases ss with
  | nil => simp
  | cons s ss =>
    obtain ⟨hne, hslash⟩ := hss s List.mem_cons_self
    obtain ⟨c, rest, hs⟩ := List.exists_cons_of_ne_nil (mt String.toList_eq_nil_iff.1 hne)
    have hc : c ≠ '/' := by
      rintro rfl
      exact hslash (hs ▸ List.mem_cons_self)
    cases ss with
    | nil => simp [hs, hc]
    | cons t ss => simp [String.intercalate_cons_cons, hs, hc]

/-- Location paths hold no dot. -/
theorem dot_not_mem_path (path : String) : '.' ∉ (Location.embedded path).path.toList := by
  show '.' ∉ (String.ofList (['/'].intercalate (Location.segments path))).toList
  rw [String.toList_ofList]
  intro hdot
  rcases Text.mem_of_mem_intercalate hdot with hslash | ⟨segment, hsegment, hdot⟩
  · exact absurd hslash (by decide)
  · exact (Location.isSegment_of_mem_segments hsegment).noDot hdot

/-- A segmented path is that of a location exactly if there is no dot in it. -/
theorem path_embedded_eq_iff (h : IsSegmented path) :
    (Location.embedded path).path = path ↔ '.' ∉ path.toList := by
  constructor
  · intro heq
    rw [← heq]
    exact dot_not_mem_path path
  · intro hdot
    obtain ⟨ss, hss, rfl⟩ := h
    rw [String.toList_intercalate] at hdot
    have hsegments : ∀ s ∈ ss.map String.toList, Location.IsSegment s := by
      intro _ hmem
      obtain ⟨s, hs, rfl⟩ := List.mem_map.1 hmem
      exact {
        ne_nil := mt String.toList_eq_nil_iff.1 (hss s hs).1
        noSlash := (hss s hs).2
        noDot := fun hc => hdot (Text.mem_intercalate_of_mem (List.mem_map_of_mem hs) hc) }
    have hpath : "/".intercalate ss = Location.pathOf (ss.map String.toList) := by
      rw [← String.toList_inj, String.toList_intercalate, Location.toList_pathOf]
      rfl
    rw [hpath, Location.embedded_pathOf hsegments]

theorem base_append_inj {path' name : String} :
    base ⟨.embedded, path⟩ ++ name = base ⟨.embedded, path'⟩ ++ name ↔ path = path' := by
  rw [String.append_left_inj]
  unfold base
  by_cases h : path = "" <;> by_cases h' : path' = ""
  · simp [h, h']
  · simp [h, h', Ne.symm h']
  · simp [h, h']
  · simp [h, h']

/-- A file in a directory is kept below the directory. -/
theorem keptUnder_append_iff {name : String} (hpath : IsSegmented path)
    (hname : '/' ∉ name.toList) :
    KeptUnder (path ++ "/" ++ name) written ↔ written = base ⟨.embedded, path⟩ ++ name := by
  have hkept : KeptUnder (path ++ "/" ++ name) (base ⟨.embedded, path⟩ ++ name) := by
    unfold base
    by_cases hempty : path = ""
    · subst hempty
      refine ⟨⟨1, by simp⟩, fun hhead => hname ?_⟩
      simpa using List.mem_of_head? hhead
    · rw [if_neg hempty]
      refine ⟨⟨0, by simp⟩, fun hhead => head?_ne_of_isSegmented hpath ?_⟩
      rwa [String.toList_append, String.toList_append, List.append_assoc,
        List.head?_append_of_ne_nil _ (mt String.toList_eq_nil_iff.1 hempty)] at hhead
  rw [keptUnder_iff, keptUnder_iff.1 hkept]

/-- **Directories of resources**: a resource in a directory is found under its own name by a scan of
the package that the directory is the path of, exactly if the directory has no dot in its path. The
package is read from its scheme and the directory, too, unless the directory ends in a blank. -/
theorem addressable_iff {directory name : String} (hdirectory : IsSegmented directory)
    (hslash : '/' ∉ name.toList) (hname : ∃ mid, name = front ++ mid ++ back)
    (hkept : KeptUnder (directory ++ "/" ++ name) path) (hadded : LastAdded added path content) :
    (¬ Text.EndsBlank directory →
        Location.parse ("embedded:" ++ directory) = .ok (.embedded directory)) ∧
      ∃ found, ((({} : Bundle).addAll added).scan (.embedded directory) front back).result =
          .ok found ∧
        (.inMemory name ("embedded:" ++ path) content ∈ found ↔ '.' ∉ directory.toList) := by
  refine ⟨fun hblank => ?_, _, result_scan _ (.embedded directory) front back, ?_⟩
  · show Location.parse (Medium.embedded.scheme ++ directory) = _
    rw [Location.parse_scheme_append, Text.rdropWhile_of_not_endsBlank hblank,
      String.ofList_toList]
    rfl
  · obtain rfl := (keptUnder_append_iff hdirectory hslash).1 hkept
    have hembedded : (Location.embedded directory).isEmbedded = true := rfl
    simp only [if_pos hembedded, mem_found_iff, get?_addAll, isBelow_iff,
      ← path_embedded_eq_iff hdirectory]
    constructor
    · rintro ⟨path, content', -, hpath, -, hr⟩
      have hphysical : base ⟨.embedded, directory⟩ ++ name = path :=
        String.append_right_inj _ |>.1 (congrArg Resource.physicalLocation hr)
      exact (base_append_inj.1 (hphysical.trans hpath)).symm
    · intro hpath
      have hbase : base (.embedded directory) = base ⟨.embedded, directory⟩ :=
        congrArg (fun path => base ⟨.embedded, path⟩) hpath
      refine ⟨_, content, hadded, congrArg (· ++ name) hbase.symm, ?_, rfl⟩
      rwa [named_iff, lastSegment_base_append, lastSegment_eq_self hslash, hasAffixes_iff_eq_append]

/-- One addition to a directory with an inner segment. -/
def inPackage : List (String × List UInt8) := [("/db/migration/V1.2__x.sql", [1])]

theorem addressable_inPackage :
    IsSegmented "db/migration" ∧
      KeptUnder ("db/migration" ++ "/" ++ "V1.2__x.sql") "db/migration/V1.2__x.sql" ∧
      LastAdded inPackage "db/migration/V1.2__x.sql" [1] ∧
      Location.parse ("embedded:" ++ "db/migration") = .ok (.embedded "db/migration") ∧
      ∃ found,
        ((({} : Bundle).addAll inPackage).scan (.embedded "db/migration") "V" ".sql").result =
          .ok found ∧
        .inMemory "V1.2__x.sql" ("embedded:" ++ "db/migration/V1.2__x.sql") [1] ∈ found := by
  have hdirectory : IsSegmented "db/migration" := ⟨["db", "migration"], by decide, rfl⟩
  have hkept : KeptUnder ("db/migration" ++ "/" ++ "V1.2__x.sql") "db/migration/V1.2__x.sql" :=
    ⟨⟨0, rfl⟩, by decide⟩
  have hadded : LastAdded inPackage "db/migration/V1.2__x.sql" [1] :=
    ⟨[], _, [], rfl, ⟨⟨1, rfl⟩, by decide⟩, List.forall_mem_nil _⟩
  obtain ⟨hparse, found, hfound, hmem⟩ :=
    addressable_iff hdirectory (by decide) (⟨"1.2__x", rfl⟩ : ∃ mid, _ = "V" ++ mid ++ ".sql") hkept
      hadded
  have hblank : ¬ Text.EndsBlank "db/migration" := by
    rintro ⟨front, c, hfront, hc⟩
    have hlast : some 'n' = some c := by simpa using congrArg List.getLast? hfront
    cases hlast
    exact absurd hc (by decide)
  exact ⟨hdirectory, hkept, hadded, hparse hblank, found, hfound, hmem.2 (by decide)⟩

/-- A dot in a directory, which separates two segments of the package that is scanned, hides its
resources. -/
theorem not_addressable_dottedDirectory :
    ¬ ∀ (added : List (String × List UInt8)) (directory name path front back : String)
        (content : List UInt8), IsSegmented directory → '/' ∉ name.toList →
      (∃ mid, name = front ++ mid ++ back) → KeptUnder (directory ++ "/" ++ name) path →
      LastAdded added path content →
      ∃ found, ((({} : Bundle).addAll added).scan (.embedded directory) front back).result =
          .ok found ∧ .inMemory name ("embedded:" ++ path) content ∈ found := by
  intro haddressable
  have hkept : KeptUnder "v1.0/V1__x.sql" "v1.0/V1__x.sql" := ⟨⟨0, rfl⟩, by decide⟩
  obtain ⟨found, hfound, hmem⟩ :=
    haddressable [("v1.0/V1__x.sql", [1])] "v1.0" "V1__x.sql" "v1.0/V1__x.sql" "V" ".sql" [1]
      ⟨["v1.0"], by decide, rfl⟩ (by decide) ⟨"1__x", rfl⟩ hkept
      ⟨[], _, [], rfl, hkept, List.forall_mem_nil _⟩
  cases (Except.ok.inj hfound : [] = found)
  cases hmem

end Bundle

end SchemaPlan
