import Mathlib.Data.List.TakeWhile
import SchemaPlan.Proofs.Text.Search
import SchemaPlan.Storage.Scanner

/-!
# What a scan of embedded resources finds

The range that a scan reads off is the list of all resources whose path begins with that of the
location (`range_eq_filter`): in the order of the paths they are neighbours. So a scan finds each
resource below the location whose name has the wanted affixes, in the order of the paths
(`found_eq`), and the path of what is found is that of its entry without the location's.
-/

namespace SchemaPlan

/-! ### Last segments -/

/-- Behind a slash the last segment is that of the rest. -/
theorem lastSegment_eq_of_append {path rest : String} {front : List Char}
    (h : path.toList = front ++ '/' :: rest.toList) : lastSegment path = lastSegment rest := by
  have htake : ∀ s t : List Char,
      (s ++ '/' :: t).takeWhile (· ≠ '/') = s.takeWhile (· ≠ '/') := by
    intro s t
    induction s with
    | nil => rfl
    | cons c s ih =>
      rw [List.cons_append, List.takeWhile_cons, List.takeWhile_cons, ih]
  unfold lastSegment
  rw [h, List.reverse_append, List.reverse_cons, List.append_assoc, List.singleton_append, htake]

theorem slash_not_mem_lastSegment (path : String) : '/' ∉ (lastSegment path).toList := by
  rw [lastSegment, String.toList_ofList, List.mem_reverse]
  intro h
  exact absurd (List.all_eq_true.1 List.all_takeWhile _ h) (by decide)

theorem lastSegment_eq_self {path : String} (h : '/' ∉ path.toList) : lastSegment path = path := by
  have htake : path.toList.reverse.takeWhile (· ≠ '/') = path.toList.reverse :=
    List.takeWhile_eq_self_iff.2 fun c hc =>
      decide_eq_true fun hslash => h (hslash ▸ List.mem_reverse.1 hc)
  rw [lastSegment, htake, List.reverse_reverse, String.ofList_toList]

namespace Bundle

variable {resources : Bundle} {l : Location} {front back : String}

/-! ### Ranges -/

theorem not_lt_of_mem_dropWhile {base : String} {entries : List (String × List UInt8)}
    (h : entries.Pairwise fun a b => a.1 < b.1) {e : String × List UInt8}
    (he : e ∈ entries.dropWhile fun e => e.1 < base) : ¬ e.1 < base := by
  induction entries with
  | nil => cases he
  | cons a entries ih =>
    rw [List.pairwise_cons] at h
    rw [List.dropWhile_cons] at he
    split at he
    · exact ih h.2 he
    · next ha =>
      rw [decide_eq_true_eq] at ha
      rcases List.mem_cons.1 he with rfl | he
      · exact ha
      · exact fun hlt => ha (String.lt_trans (h.1 e he) hlt)

/-- Of paths that do not come before `base` those that begin with it come first. -/
theorem takeWhile_eq_filter {base : String} {entries : List (String × List UInt8)}
    (h : entries.Pairwise fun a b => a.1 < b.1) (hbase : ∀ e ∈ entries, ¬ e.1 < base) :
    (entries.takeWhile fun e => Text.startsWith base.toList e.1.toList) =
      entries.filter fun e => Text.startsWith base.toList e.1.toList := by
  induction entries with
  | nil => rfl
  | cons a entries ih =>
    rw [List.pairwise_cons] at h
    obtain ⟨ha, hbase⟩ := List.forall_mem_cons.1 hbase
    rw [List.takeWhile_cons, List.filter_cons]
    split
    · rw [ih h.2 hbase]
    · next hno =>
      symm
      refine List.filter_eq_nil_iff.2 fun e he hstarts => hno ?_
      rw [Text.startsWith_iff] at hstarts ⊢
      rw [String.lt_iff] at ha
      exact Text.prefix_of_lt ha (String.lt_iff.1 (h.1 e he)) hstarts

/-- A range holds all resources whose path begins with `base`. -/
theorem range_eq_filter (resources : Bundle) (base : String) :
    resources.range base =
      resources.entries.toList.filter fun e => Text.startsWith base.toList e.1.toList := by
  let before : String × List UInt8 → Bool := fun e => e.1 < base
  let all := resources.entries.toList
  have hall : all.Pairwise fun a b => a.1 < b.1 := resources.entries.ascending
  -- what is dropped comes before `base`, so it does not begin with it
  have hdropped : (all.takeWhile before).filter
      (fun e => Text.startsWith base.toList e.1.toList) = [] := by
    refine List.filter_eq_nil_iff.2 fun e he hstarts => ?_
    have hlt : e.1 < base := of_decide_eq_true (List.all_eq_true.1 List.all_takeWhile e he)
    exact Text.not_lt_of_prefix (Text.startsWith_iff.1 hstarts) (String.lt_iff.1 hlt)
  calc (all.dropWhile before).takeWhile (fun e => Text.startsWith base.toList e.1.toList)
      = (all.dropWhile before).filter fun e => Text.startsWith base.toList e.1.toList :=
        takeWhile_eq_filter (hall.sublist (List.dropWhile_sublist before))
          fun e he => not_lt_of_mem_dropWhile hall he
    _ = (all.takeWhile before ++ all.dropWhile before).filter
          fun e => Text.startsWith base.toList e.1.toList := by
        rw [List.filter_append, hdropped, List.nil_append]
    _ = all.filter fun e => Text.startsWith base.toList e.1.toList := by
        rw [List.takeWhile_append_dropWhile]

/-- The entries whose path begins with that of a location. -/
def below (resources : Bundle) (l : Location) : List (String × List UInt8) :=
  resources.entries.toList.filter fun e => Text.startsWith (base l).toList e.1.toList

theorem mem_below_iff {e : String × List UInt8} :
    e ∈ resources.below l ↔ e ∈ resources.entries.toList ∧ (base l).toList <+: e.1.toList := by
  rw [below, List.mem_filter, Text.startsWith_iff]

/-- What is found below a location is found in the order of the paths. -/
theorem found_eq (resources : Bundle) (l : Location) (front back : String) :
    resources.found l front back =
      ((resources.below l).filter fun e => hasAffixes front back (lastSegment e.1)).map
        (resource (base l)) := by
  rw [found, range_eq_filter]
  rfl

/-! ### Resources of entries -/

@[simp] theorem bytes_resource (files : FileTree) (base : String) (e : String × List UInt8) :
    (resource base e).bytes files = .ok e.2 := rfl

theorem toList_base (l : Location) :
    (base l).toList = [] ∨ (base l).toList = l.path.toList ++ ['/'] := by
  unfold base
  split
  · exact .inl rfl
  · exact .inr String.toList_append

/-- The path of a resource is that of its entry without the beginning. -/
theorem toList_eq_append_path {base : String} {e : String × List UInt8}
    (h : base.toList <+: e.1.toList) :
    e.1.toList = base.toList ++ (resource base e).path.toList := by
  obtain ⟨rest, hrest⟩ := h
  show e.1.toList = base.toList ++ (String.ofList (e.1.toList.drop base.length)).toList
  rw [String.toList_ofList, ← hrest, ← String.length_toList, List.drop_left]

/-- The resource of an entry whose path goes on from `base`. -/
theorem resource_append (base path : String) (content : List UInt8) :
    resource base (base ++ path, content) =
      .inMemory path (Medium.embedded.scheme ++ (base ++ path)) content := by
  rw [resource, String.toList_append, ← String.length_toList, List.drop_left, String.ofList_toList]

theorem lastSegment_base_append (l : Location) (path : String) :
    lastSegment (base l ++ path) = lastSegment path := by
  rcases toList_base l with hbase | hbase
  · rw [String.toList_eq_nil_iff.1 hbase, String.empty_append]
  · refine @lastSegment_eq_of_append _ _ l.path.toList ?_
    rw [String.toList_append, hbase, List.append_assoc, List.singleton_append]

/-- The name of a resource is the last segment of the path that it is kept under. -/
theorem filename_resource {e : String × List UInt8} (h : (base l).toList <+: e.1.toList) :
    (resource (base l) e).filename = lastSegment e.1 := by
  have heq : e.1 = base l ++ (resource (base l) e).path := by
    rw [← String.toList_inj, String.toList_append]
    exact toList_eq_append_path h
  exact ((congrArg lastSegment heq).trans (lastSegment_base_append l _)).symm

/-! ### Scans -/

/-- A scan of an embedded location succeeds with what is found there. -/
theorem result_scan (resources : Bundle) (l : Location) (front back : String) :
    (resources.scan l front back).result =
      .ok (if l.isEmbedded then resources.found l front back else []) := by
  unfold scan
  cases l.isEmbedded <;> rfl

end Bundle

end SchemaPlan
