import SchemaPlan.Callback
import SchemaPlan.Proofs.Text.Search

/-!
# Which names can be read

A name can be read by a scheme exactly if it begins with the marker, the separator follows with a
description that is not blank, and a version stands before the separator in the name of a versioned
migration but not in that of a repeatable one (`read_eq_ok_iff`). For each scheme there are such
names, unless its marks hold slashes.
-/

namespace SchemaPlan.NameScheme

variable {scheme : NameScheme} {name : String} {repeatable : Bool} {title : Title}

/-- What is left of an unmarked name without the suffix, if it ends with it. -/
def withoutSuffix (scheme : NameScheme) (unmarked : List Char) : List Char :=
  (Text.dropSuffix? scheme.suffix.toList unmarked).getD unmarked

theorem withoutSuffix_append (scheme : NameScheme) (body : List Char) :
    scheme.withoutSuffix (body ++ scheme.suffix.toList) = body := by
  rw [withoutSuffix, Text.dropSuffix?_append, Option.getD_some]

theorem withoutSuffix_isPrefix (scheme : NameScheme) (unmarked : List Char) :
    scheme.withoutSuffix unmarked <+: unmarked := by
  unfold withoutSuffix
  cases h : Text.dropSuffix? scheme.suffix.toList unmarked with
  | none => exact List.prefix_rfl
  | some body => exact ⟨_, (Text.dropSuffix?_eq_some_iff.1 h).symm⟩

/-- What is said by the part before the separator: a version, or that there is none. -/
def Denotes (repeatable : Bool) (version : List Char) : Option Version → Prop
  | none => repeatable ∧ version = []
  | some v => repeatable = false ∧ version ≠ [] ∧ Version.parse (String.ofList version) = .ok v

/-- When a name can be read, and what it says then. -/
theorem read_eq_ok_iff :
    scheme.read name repeatable = .ok title ↔
      ∃ unmarked version rest, name.toList = scheme.marker.toList ++ unmarked ∧
        Text.cut? scheme.separator.toList (scheme.withoutSuffix unmarked) = some (version, rest) ∧
        title.description.toList = Text.exchange '_' ' ' rest ∧
        Text.allBlank title.description = false ∧ Denotes repeatable version title.version := by
  constructor
  · intro h
    simp only [read] at h
    split at h
    · cases h
    next unmarked hmarker =>
    split at h
    · cases h
    next version rest hcut =>
    split at h
    · cases h
    next hblank =>
    refine ⟨unmarked, version, rest, Text.dropPrefix?_eq_some_iff.1 hmarker, hcut, ?_⟩
    have hallBlank : Text.allBlank (String.ofList (Text.exchange '_' ' ' rest)) = false := by
      rw [Text.allBlank, String.toList_ofList]
      exact Bool.eq_false_iff.2 hblank
    split at h
    · next hempty =>
      split at h
      · next hrepeatable =>
        cases h
        exact ⟨String.toList_ofList, hallBlank, hrepeatable, List.isEmpty_iff.1 hempty⟩
      · cases h
    · next hempty =>
      split at h
      · cases h
      next hrepeatable =>
      split at h
      · next v hv =>
        cases h
        exact ⟨String.toList_ofList, hallBlank, Bool.eq_false_iff.2 hrepeatable,
          fun hnil => hempty (List.isEmpty_iff.2 hnil), hv⟩
      · cases h
  · rintro ⟨unmarked, version, rest, hname, hcut, hdescription, hblank, hdenotes⟩
    obtain ⟨version?, description⟩ := title
    rw [withoutSuffix] at hcut
    rw [Text.allBlank, hdescription] at hblank
    have hofList : String.ofList (Text.exchange '_' ' ' rest) = description := by
      rw [← hdescription, String.ofList_toList]
    simp only [read, hname, Text.dropPrefix?_append, hcut, hblank, Bool.false_eq_true, if_false,
      hofList]
    cases version? with
    | none =>
      obtain ⟨rfl, rfl⟩ := hdenotes
      rfl
    | some v =>
      obtain ⟨rfl, hne, hv⟩ := hdenotes
      have hempty : version.isEmpty = false := by
        rwa [Bool.eq_false_iff, ne_eq, List.isEmpty_iff]
      rw [hempty, hv]
      rfl

theorem marker_prefix_of_read (h : scheme.read name repeatable = .ok title) :
    scheme.marker.toList <+: name.toList := by
  obtain ⟨unmarked, -, -, hname, -⟩ := read_eq_ok_iff.1 h
  exact ⟨unmarked, hname.symm⟩

theorem separator_subset_of_read (h : scheme.read name repeatable = .ok title) :
    scheme.separator.toList ⊆ name.toList := by
  obtain ⟨unmarked, version, rest, hname, hcut, -⟩ := read_eq_ok_iff.1 h
  have hbody := Text.eq_append_of_cut? hcut
  intro c hc
  have hc : c ∈ scheme.withoutSuffix unmarked := by
    rw [hbody]
    exact List.mem_append_left _ (List.mem_append_right _ hc)
  rw [hname]
  exact List.mem_append_right _ ((scheme.withoutSuffix_isPrefix unmarked).subset hc)

theorem allBlank_of_read (h : scheme.read name repeatable = .ok title) :
    Text.allBlank title.description = false := by
  obtain ⟨-, -, -, -, -, -, hblank, -⟩ := read_eq_ok_iff.1 h
  exact hblank

/-- A name that is read as that of a repeatable migration has no version, and any other has one. -/
theorem isNone_version_of_read (h : scheme.read name repeatable = .ok title) :
    title.version.isNone = repeatable := by
  obtain ⟨_, _, _, -, -, -, -, hdenotes⟩ := read_eq_ok_iff.1 h
  cases hversion : title.version with
  | none =>
    rw [hversion] at hdenotes
    exact hdenotes.1.symm
  | some v =>
    rw [hversion] at hdenotes
    exact hdenotes.1.symm

/-- What is wrong with a name is reported as such, whatever it is; a bad version is, too. -/
theorem exists_invalidName_of_read {e : PlanError} (h : scheme.read name repeatable = .error e) :
    ∃ reason, e = .invalidName name reason := by
  simp only [read] at h
  repeat' split at h
  all_goals cases h
  all_goals exact ⟨_, rfl⟩

/-! ### Names that can be read -/

/-- No mark holds a slash, so the marks can stand in the name of a file. -/
structure FitsName (scheme : NameScheme) : Prop where
  marker : '/' ∉ scheme.marker.toList
  separator : '/' ∉ scheme.separator.toList
  suffix : '/' ∉ scheme.suffix.toList

/-- A name with `version` before the separator and a digit for the description. -/
def nameOf (scheme : NameScheme) (version : List Char) : String :=
  String.ofList
    (scheme.marker.toList ++ version ++ scheme.separator.toList ++ ['0'] ++ scheme.suffix.toList)

theorem toList_nameOf (scheme : NameScheme) (version : List Char) :
    (scheme.nameOf version).toList = scheme.marker.toList ++
      (version ++ scheme.separator.toList ++ ['0'] ++ scheme.suffix.toList) := by
  simp [nameOf]

theorem covers_nameOf (scheme : NameScheme) (version : List Char) :
    scheme.covers (scheme.nameOf version) :=
  hasAffixes_iff.2 ⟨version ++ scheme.separator.toList ++ ['0'], by
    rw [toList_nameOf]
    simp only [List.append_assoc]⟩

theorem slash_not_mem_nameOf (h : scheme.FitsName) {version : List Char} (hv : '/' ∉ version) :
    '/' ∉ (scheme.nameOf version).toList := by
  rw [toList_nameOf]
  simp [h.marker, h.separator, h.suffix, hv]

/-- No callback has a name that ends with a digit. -/
theorem isCallbackName_nameOf (scheme : NameScheme) (version : List Char) :
    isCallbackName (scheme.nameOf version) scheme.suffix = false := by
  have hends : ∀ callback ∈ callbackNames, callback.toList.getLast? ≠ some '0' := by decide
  have hbase : (Text.dropSuffix? scheme.suffix.toList (scheme.nameOf version).toList).getD
      (scheme.nameOf version).toList =
        scheme.marker.toList ++ version ++ scheme.separator.toList ++ ['0'] := by
    rw [nameOf, String.toList_ofList, Text.dropSuffix?_append, Option.getD_some]
  rw [isCallbackName, hbase, Bool.eq_false_iff]
  intro hcontains
  refine hends _ (List.contains_iff_mem.1 hcontains) ?_
  rw [String.toList_ofList, List.getLast?_concat]

/-- If the separator is first found where it was put, the name can be read. -/
theorem read_nameOf {version : List Char} {version? : Option Version}
    (hcut : Text.cut? scheme.separator.toList (version ++ scheme.separator.toList ++ ['0']) =
      some (version, ['0'])) (hdenotes : Denotes repeatable version version?) :
    scheme.read (scheme.nameOf version) repeatable = .ok ⟨version?, "0"⟩ := by
  have hdescription : "0".toList = Text.exchange '_' ' ' ['0'] := by decide
  have hblank : Text.allBlank "0" = false := by decide
  refine read_eq_ok_iff.2 ⟨_, version, ['0'], toList_nameOf scheme version, ?_, hdescription,
    hblank, hdenotes⟩
  rw [withoutSuffix_append, hcut]

/-- The separator is first found behind a digit that it does not begin with. -/
theorem exists_digit_before (d : Char) (separator : List Char) :
    ∃ c v, c ≠ '/' ∧ Version.parse (String.ofList [c]) = .ok v ∧
      Text.cut? (d :: separator) ([c] ++ (d :: separator) ++ ['0']) = some ([c], ['0']) := by
  obtain ⟨c, v, hslash, hv, hdc⟩ : ∃ c v, c ≠ '/' ∧
      Version.parse (String.ofList [c]) = .ok v ∧ d ≠ c := by
    by_cases hd : d = '1'
    · exact ⟨'2', ⟨["2"], "2"⟩, by decide, by decide, by rw [hd]; decide⟩
    · exact ⟨'1', ⟨["1"], "1"⟩, by decide, by decide, hd⟩
  refine ⟨c, v, hslash, hv, ?_⟩
  rw [List.singleton_append, List.cons_append, Text.cut?_cons hdc, Text.cut?_append]
  rfl

/-- Names of either kind can be read, and they can be names of files unless the marks hold slashes.
-/
theorem exists_readable_name (hfits : scheme.FitsName) (hseparator : scheme.separator ≠ "")
    (repeatable : Bool) :
    ∃ name, '/' ∉ name.toList ∧ scheme.covers name ∧ isCallbackName name scheme.suffix = false ∧
      ∃ title, scheme.read name repeatable = .ok title := by
  obtain ⟨version, version?, hslash, hcut, hdenotes⟩ : ∃ version version?, '/' ∉ version ∧
      Text.cut? scheme.separator.toList (version ++ scheme.separator.toList ++ ['0']) =
        some (version, ['0']) ∧ Denotes repeatable version version? := by
    cases repeatable with
    | true => exact ⟨[], none, List.not_mem_nil, Text.cut?_append _ _, rfl, rfl⟩
    | false =>
      cases h : scheme.separator.toList with
      | nil => exact absurd (String.toList_eq_nil_iff.1 h) hseparator
      | cons d separator =>
        obtain ⟨c, v, hc, hv, hcut⟩ := exists_digit_before d separator
        exact ⟨[c], some v, by simpa using hc.symm, hcut, rfl, List.cons_ne_nil c [], hv⟩
  exact ⟨scheme.nameOf version, slash_not_mem_nameOf hfits hslash, covers_nameOf scheme version,
    isCallbackName_nameOf scheme version, _, read_nameOf hcut hdenotes⟩

end SchemaPlan.NameScheme
