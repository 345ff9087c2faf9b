import SchemaPlan.Proofs.NameScheme
import SchemaPlan.Proofs.Text.Occurrence

/-!
# How names are spelled

The names that can be read are those composed of the marker, a version, the separator, a description
and a tail (`composed_iff`). The marks are any texts, which may overlap or hold each other, so the
parts are told from one another by two rules: the tail is the suffix wherever the suffix can be one,
and the separator is the first one there is.

A name is taken apart by characters here. Marks that are looked for among the bytes of a name stand
between two characters of it, and what they leave are the bytes of the same parts
(`slicesWhole`).
-/

namespace SchemaPlan.NameScheme

/-- The end of an unmarked name that is no part of the description: the suffix if the name ends with
it, and nothing otherwise. -/
def tailOf (scheme : NameScheme) (unmarked : String) : String :=
  if scheme.suffix.toList <:+ unmarked.toList then scheme.suffix else ""

/-- `scheme.Composed name version raw tail`: the name is composed of the marker, a version, the
separator, a description and a tail. -/
structure Composed (scheme : NameScheme) (name version raw tail : String) : Prop where
  name_eq : name = scheme.marker ++ version ++ scheme.separator ++ raw ++ tail
  tail_eq : tail = scheme.tailOf (version ++ scheme.separator ++ raw ++ tail)
  /-- No separator begins before the one that follows the version. -/
  first : Text.FirstAt scheme.separator.toList (version ++ scheme.separator).toList version.length

/-- The description that is written as `raw` in a name. -/
def spaced (raw : String) : String :=
  String.ofList (raw.toList.map fun c => if c = '_' then ' ' else c)

variable {scheme : NameScheme} {name version raw : String} {repeatable : Bool} {title : Title}

theorem exists_toList (s : List Char) : ∃ text : String, s = text.toList :=
  ⟨String.ofList s, String.toList_ofList.symm⟩

theorem toList_spaced (raw : String) : (spaced raw).toList = Text.exchange '_' ' ' raw.toList :=
  String.toList_ofList

theorem withoutSuffix_eq_iff {unmarked : String} {body : List Char} :
    scheme.withoutSuffix unmarked.toList = body ↔
      unmarked.toList = body ++ (scheme.tailOf unmarked).toList := by
  unfold withoutSuffix tailOf
  by_cases h : scheme.suffix.toList <:+ unmarked.toList
  · rw [if_pos h]
    obtain ⟨rest, hrest⟩ := h
    rw [← hrest, Text.dropSuffix?_append, Option.getD_some, List.append_cancel_right_eq]
  · have hnone : Text.dropSuffix? scheme.suffix.toList unmarked.toList = none := by
      rwa [← Text.endsWith_iff, Text.endsWith, Option.not_isSome_iff_eq_none] at h
    rw [if_neg h, hnone, Option.getD_none, String.toList_empty, List.append_nil]

/-- The parts of which a name is composed are those found from both of its ends. -/
theorem composed_iff (scheme : NameScheme) (name version raw : String) :
    (∃ tail, scheme.Composed name version raw tail) ↔
      ∃ unmarked, name.toList = scheme.marker.toList ++ unmarked ∧
        Text.cut? scheme.separator.toList (scheme.withoutSuffix unmarked) =
          some (version.toList, raw.toList) := by
  constructor
  · rintro ⟨tail, rfl, htail, hfirst⟩
    have hbody : scheme.withoutSuffix (version ++ scheme.separator ++ raw ++ tail).toList =
        version.toList ++ scheme.separator.toList ++ raw.toList := by
      rw [withoutSuffix_eq_iff, ← htail]
      simp
    refine ⟨(version ++ scheme.separator ++ raw ++ tail).toList, by simp, ?_⟩
    rw [String.toList_append, ← String.length_toList] at hfirst
    rw [hbody, Text.cut?_eq_some_iff, Text.firstAt_append_iff]
    exact ⟨rfl, hfirst⟩
  · rintro ⟨unmarked, hname, hcut⟩
    obtain ⟨hbody, hfirst⟩ := Text.cut?_eq_some_iff.1 hcut
    obtain ⟨unmarked, rfl⟩ := exists_toList unmarked
    have hunmarked : unmarked = version ++ scheme.separator ++ raw ++ scheme.tailOf unmarked := by
      rw [← String.toList_inj, withoutSuffix_eq_iff.1 hbody]
      simp
    refine ⟨scheme.tailOf unmarked, ?_, ?_, ?_⟩
    · rw [← String.toList_inj, hname]
      conv_lhs => rw [hunmarked]
      simp
    · rw [← hunmarked]
    · rw [hbody, Text.firstAt_append_iff] at hfirst
      rwa [String.toList_append, ← String.length_toList]

theorem denotes_iff {version? : Option Version} :
    Denotes repeatable version.toList version? ↔
      repeatable = true ∧ version = "" ∧ version? = none ∨
        repeatable = false ∧ ∃ v, version? = some v ∧ Version.parse version = .ok v := by
  cases version? with
  | none => simp [Denotes]
  | some v =>
    -- the empty text is no version
    have hempty : Version.parse "" ≠ .ok v := by rintro ⟨⟩
    simp only [Denotes, String.ofList_toList, ne_eq, String.toList_eq_nil_iff, reduceCtorEq,
      and_false, false_or, Option.some.injEq, exists_eq_left']
    constructor
    · rintro ⟨hrepeatable, -, hv⟩
      exact ⟨hrepeatable, hv⟩
    · rintro ⟨hrepeatable, hv⟩
      exact ⟨hrepeatable, fun hversion => hempty (hversion ▸ hv), hv⟩

/-- A name is read as what its parts say. -/
theorem read_eq_ok_iff_composed :
    scheme.read name repeatable = .ok title ↔
      ∃ version raw tail, scheme.Composed name version raw tail ∧
        title.description = spaced raw ∧ Text.allBlank title.description = false ∧
        Denotes repeatable version.toList title.version := by
  rw [read_eq_ok_iff]
  constructor
  · rintro ⟨unmarked, version, rest, hname, hcut, hdescription, hblank, hdenotes⟩
    obtain ⟨version, rfl⟩ := exists_toList version
    obtain ⟨raw, rfl⟩ := exists_toList rest
    obtain ⟨tail, hcomposed⟩ := (composed_iff scheme name version raw).2 ⟨unmarked, hname, hcut⟩
    refine ⟨version, raw, tail, hcomposed, ?_, hblank, hdenotes⟩
    rw [← String.toList_inj, hdescription, toList_spaced]
  · rintro ⟨version, raw, tail, hcomposed, hdescription, hblank, hdenotes⟩
    obtain ⟨unmarked, hname, hcut⟩ := (composed_iff scheme name version raw).1 ⟨tail, hcomposed⟩
    refine ⟨unmarked, _, _, hname, hcut, ?_, hblank, hdenotes⟩
    rw [hdescription, toList_spaced]

/-- With the suffix at its end, a name is composed whatever the description is. -/
theorem composed_append_suffix (raw : String)
    (hfirst : Text.FirstAt scheme.separator.toList (version ++ scheme.separator).toList
      version.length) :
    scheme.Composed (scheme.marker ++ version ++ scheme.separator ++ raw ++ scheme.suffix) version
      raw scheme.suffix := by
  refine ⟨rfl, (if_pos ?_).symm, hfirst⟩
  rw [String.toList_append]
  exact List.suffix_append _ scheme.suffix.toList

/-! ### Names as bytes -/

/-- The slices of the bytes of a name at which its marks are looked for are the bytes of what is
left of its characters: no mark is found that begins or ends within a character. -/
structure SlicesWhole (scheme : NameScheme) (name : String) : Prop where
  /-- What stands behind the bytes of the marker. -/
  marker : ∀ bytes, Text.bytesOf scheme.marker ++ bytes = Text.bytesOf name ↔
    ∃ unmarked, Text.dropPrefix? scheme.marker.toList name.toList = some unmarked ∧
      bytes = Text.encode unmarked
  /-- What stands before the bytes of the suffix. -/
  suffix : ∀ unmarked, Text.dropPrefix? scheme.marker.toList name.toList = some unmarked →
    ∀ bytes, bytes ++ Text.bytesOf scheme.suffix = Text.encode unmarked ↔
      ∃ body, Text.dropSuffix? scheme.suffix.toList unmarked = some body ∧
        bytes = Text.encode body
  /-- What stands before and behind the first place with the bytes of the separator. -/
  separator : ∀ unmarked, Text.dropPrefix? scheme.marker.toList name.toList = some unmarked →
    ∀ n, Text.FirstAt (Text.bytesOf scheme.separator) (Text.encode (scheme.withoutSuffix unmarked))
        n ↔
      ∃ version rest,
        Text.cut? scheme.separator.toList (scheme.withoutSuffix unmarked) = some (version, rest) ∧
          n = (Text.encode version).length ∧
          (Text.encode (scheme.withoutSuffix unmarked)).take n = Text.encode version ∧
          (Text.encode (scheme.withoutSuffix unmarked)).drop
            (n + (Text.bytesOf scheme.separator).length) = Text.encode rest

theorem slicesWhole (scheme : NameScheme) (name : String) : scheme.SlicesWhole name where
  marker bytes := by
    simp only [Text.bytesOf, Text.append_eq_encode_iff, Text.dropPrefix?_eq_some_iff]
  suffix unmarked _ bytes := by
    simp only [Text.bytesOf, Text.append_encode_eq_iff, Text.dropSuffix?_eq_some_iff]
  separator unmarked _ n := by
    rw [Text.bytesOf, Text.firstAt_encode_iff]
    constructor
    · rintro ⟨version, rest, hcut, rfl⟩
      refine ⟨version, rest, hcut, rfl, ?_, ?_⟩
      · rw [Text.eq_append_of_cut? hcut, List.append_assoc, Text.encode_append, List.take_left]
      · rw [Text.eq_append_of_cut? hcut, Text.encode_append, ← List.length_append,
          ← Text.encode_append, List.drop_left]
    · rintro ⟨version, rest, hcut, hn, -⟩
      exact ⟨version, rest, hcut, hn⟩

/-! ### The grammar -/

/-- **Grammar of names**: a name is read exactly if it is composed of the marks, a description that
is not blank and, in the name of a versioned migration only, a version. Any other name is refused
with itself in the error, and no mark is found within a character. A version and a description that
are put together with the marks are read back, unless a separator begins before its place. -/
theorem read_grammar (scheme : NameScheme) (name : String) (repeatable : Bool) :
    (∀ title, scheme.read name repeatable = .ok title ↔
      ∃ version raw tail, scheme.Composed name version raw tail ∧
        title.description = spaced raw ∧ Text.allBlank title.description = false ∧
        (repeatable = true ∧ version = "" ∧ title.version = none ∨
          repeatable = false ∧ ∃ v, title.version = some v ∧ Version.parse version = .ok v)) ∧
    (∀ e, scheme.read name repeatable = .error e → ∃ reason, e = .invalidName name reason) ∧
    scheme.SlicesWhole name ∧
    ∀ version raw v, Version.parse version = .ok v → Text.allBlank (spaced raw) = false →
      Text.FirstAt scheme.separator.toList (version ++ scheme.separator).toList version.length →
      scheme.read (scheme.marker ++ version ++ scheme.separator ++ raw ++ scheme.suffix) false =
        .ok ⟨some v, spaced raw⟩ := by
  refine ⟨fun title => ?_, fun e => exists_invalidName_of_read, slicesWhole scheme name, ?_⟩
  · simp only [← denotes_iff]
    exact read_eq_ok_iff_composed
  · intro version raw v hv hblank hfirst
    have hdenotes : Denotes false version.toList (some v) := denotes_iff.2 (.inr ⟨rfl, v, rfl, hv⟩)
    exact read_eq_ok_iff_composed.2
      ⟨version, raw, _, composed_append_suffix raw hfirst, rfl, hblank, hdenotes⟩

/-- The separator and the suffix may stand in the description. -/
theorem read_grammar_marksWithin :
    standard.read ("V" ++ "1_2" ++ "__" ++ "Add__.sql_table" ++ ".sql") false =
      .ok ⟨some ⟨["1", "2"], "1.2"⟩, spaced "Add__.sql_table"⟩ :=
  (read_grammar standard "V1_2__Add__.sql_table.sql" false).2.2.2 "1_2" "Add__.sql_table" _
    (by decide) (by decide) ⟨by decide, by decide⟩

example : spaced "Add__.sql_table" = "Add  .sql table" := by decide

end SchemaPlan.NameScheme
