import SchemaPlan.Proofs.Config
import SchemaPlan.Proofs.NameScheme
import SchemaPlan.Proofs.Text.Occurrence

/-!
# What the names shown as samples say

Messages show a name that follows the scheme, with `1_2` for the version. The version is read up to
the first separator, so it is read whole exactly if no separator begins within `1_2`. One that does
overlaps the separator behind the version: it is a beginning of the rest of the version, repeated
(`prefix_append_self_iff`). So the separators for which the sample is not read as what it shows are
the beginnings of `1_21_2…`, of `_2_2…` and of `22…`, and their first character tells where the
version is cut off (`firstAt_of_repeats`).
-/

namespace SchemaPlan

/-! ### Repeated texts -/

namespace Text

variable {α : Type*} {part s before after : List α}

/-- A text is a beginning of `part`, repeated. -/
def Repeats (part s : List α) : Prop := ∃ n, s <+: (List.replicate n part).flatten

theorem repeats_append_iff : Repeats part (part ++ s) ↔ Repeats part s := by
  constructor
  · rintro ⟨n, h⟩
    cases n with
    | zero =>
      obtain ⟨-, rfl⟩ := List.append_eq_nil_iff.1 (List.prefix_nil.1 h)
      exact ⟨0, List.nil_prefix⟩
    | succ n =>
      rw [List.replicate_succ, List.flatten_cons, List.prefix_append_right_inj] at h
      exact ⟨n, h⟩
  · rintro ⟨n, h⟩
    refine ⟨n + 1, ?_⟩
    rwa [List.replicate_succ, List.flatten_cons, List.prefix_append_right_inj]

theorem repeats_of_prefix (h : s <+: part) : Repeats part s :=
  ⟨1, by rwa [List.replicate_one, List.flatten_singleton]⟩

/-- A text that repeats `part` begins with it or is a beginning of it. -/
theorem Repeats.prefix_or_prefix (h : Repeats part s) : part <+: s ∨ s <+: part := by
  obtain ⟨n, h⟩ := h
  cases n with
  | zero => exact .inr (List.prefix_nil.1 h ▸ List.nil_prefix)
  | succ n =>
    rw [List.replicate_succ, List.flatten_cons] at h
    exact List.prefix_or_prefix_of_prefix (List.prefix_append part _) h

/-- A text overlaps itself behind `part` exactly if it repeats `part`. -/
theorem prefix_append_self_iff (hpart : part ≠ []) : s <+: part ++ s ↔ Repeats part s := by
  induction hlength : s.length using Nat.strongRecOn generalizing s with
  | ind n ih =>
    -- with `part` taken off its front, the text is shorter and overlaps itself as before
    have hstep : ∀ r, s = part ++ r → (s <+: part ++ s ↔ Repeats part s) := by
      rintro r rfl
      have hlt : r.length < n := by
        have hpos := List.length_pos_iff.2 hpart
        rw [List.length_append] at hlength
        omega
      rw [List.prefix_append_right_inj, ih _ hlt rfl, repeats_append_iff]
    constructor
    · intro h
      rcases List.prefix_or_prefix_of_prefix (List.prefix_append part s) h with ⟨r, hr⟩ | hprefix
      · exact (hstep r hr.symm).1 h
      · exact repeats_of_prefix hprefix
    · intro h
      rcases h.prefix_or_prefix with ⟨r, hr⟩ | hprefix
      · exact (hstep r hr.symm).2 h
      · exact hprefix.trans (List.prefix_append part s)

/-- A text that repeats `part` begins with the same character, unless it is empty. -/
theorem Repeats.head?_eq (h : Repeats part s) (hpart : part ≠ []) (hs : s ≠ []) :
    s.head? = part.head? := by
  obtain ⟨c, part, rfl⟩ := List.exists_cons_of_ne_nil hpart
  obtain ⟨d, s, rfl⟩ := List.exists_cons_of_ne_nil hs
  rcases h.prefix_or_prefix with hprefix | hprefix
  · rw [(List.cons_prefix_cons.1 hprefix).1]
    rfl
  · rw [(List.cons_prefix_cons.1 hprefix).1]
    rfl

/-- A text that repeats `part` is found where it overlaps itself behind `part`; not before, unless
its first character stands there. -/
theorem firstAt_of_repeats (h : Repeats part s) (hpart : part ≠ []) (hs : s ≠ [])
    (hbefore : ∀ c ∈ before, part.head? ≠ some c) :
    FirstAt s (before ++ (part ++ s ++ after)) before.length := by
  induction before with
  | nil =>
    have hoverlap := (prefix_append_self_iff hpart).2 h
    exact firstAt_zero_iff.2 (hoverlap.trans (List.prefix_append _ after))
  | cons b before ih =>
    obtain ⟨hb, hbefore⟩ := List.forall_mem_cons.1 hbefore
    refine firstAt_succ_iff.2 ⟨fun hprefix => hb ?_, ih hbefore⟩
    obtain ⟨d, s, rfl⟩ := List.exists_cons_of_ne_nil hs
    rw [← h.head?_eq hpart hs, (List.cons_prefix_cons.1 hprefix).1]
    rfl

/-- In front of a text there is none of it before its place, unless it repeats an end of what stands
in front. -/
theorem firstAt_append_self_iff :
    FirstAt s (before ++ s) before.length ↔
      ∀ part, part <:+ before → part ≠ [] → ¬ Repeats part s := by
  induction before with
  | nil =>
    refine iff_of_true (firstAt_zero_iff.2 List.prefix_rfl) fun part hpart hne => ?_
    exact absurd (List.suffix_nil.1 hpart) hne
  | cons b before ih =>
    rw [List.cons_append, List.length_cons, firstAt_succ_iff, ih, ← List.cons_append,
      prefix_append_self_iff (List.cons_ne_nil b before)]
    constructor
    · rintro ⟨hwhole, htail⟩ part hpart hne
      rcases List.suffix_cons_iff.1 hpart with rfl | hpart
      · exact hwhole
      · exact htail part hpart hne
    · intro h
      exact ⟨h _ List.suffix_rfl (List.cons_ne_nil b before),
        fun part hpart => h part (hpart.trans (List.suffix_cons b before))⟩

end Text

/-! ### Samples -/

namespace NameScheme

variable {scheme : NameScheme} {title : Title} {repeatable : Bool} {version rest : List Char}

/-- A sample without marker and suffix. -/
def sampleBody (scheme : NameScheme) (repeatable : Bool) : List Char :=
  (if repeatable then [] else "1_2".toList) ++ scheme.separator.toList ++ "Description".toList

theorem toList_sample (scheme : NameScheme) (repeatable : Bool) :
    (scheme.sample repeatable).toList =
      scheme.marker.toList ++ (scheme.sampleBody repeatable ++ scheme.suffix.toList) := by
  unfold sample sampleBody
  cases repeatable <;> simp

/-- A sample is read as what its parts before and behind the first separator say. -/
theorem read_sample_eq_ok_iff :
    scheme.read (scheme.sample repeatable) repeatable = .ok title ↔
      ∃ version rest, Text.cut? scheme.separator.toList (scheme.sampleBody repeatable) =
          some (version, rest) ∧
        title.description.toList = Text.exchange '_' ' ' rest ∧
        Text.allBlank title.description = false ∧ Denotes repeatable version title.version := by
  rw [read_eq_ok_iff, toList_sample]
  constructor
  · rintro ⟨unmarked, version, rest, hname, hcut, hsays⟩
    rw [← List.append_cancel_left hname, withoutSuffix_append] at hcut
    exact ⟨version, rest, hcut, hsays⟩
  · rintro ⟨version, rest, hcut, hsays⟩
    refine ⟨_, version, rest, rfl, ?_, hsays⟩
    rwa [withoutSuffix_append]

/-- The name of a repeatable migration is read as what it shows, whatever the marks are. -/
theorem read_sample_repeatable (scheme : NameScheme) :
    scheme.read (scheme.sample true) true = .ok ⟨none, "Description"⟩ := by
  refine read_sample_eq_ok_iff.2 ⟨[], "Description".toList, ?_, by decide, by decide, rfl, rfl⟩
  exact Text.cut?_append _ _

/-- No separator begins within the version. -/
def VersionWhole (scheme : NameScheme) : Prop :=
  ∀ part ∈ ["1_2", "_2", "2"], ¬ Text.Repeats part.toList scheme.separator.toList

theorem versionWhole_iff :
    scheme.VersionWhole ↔ ∀ part : List Char, part <:+ "1_2".toList → part ≠ [] →
      ¬ Text.Repeats part scheme.separator.toList := by
  have htails : "1_2".toList.tails = ["1_2".toList, "_2".toList, "2".toList, []] := by decide
  simp only [← List.mem_tails, htails, VersionWhole, List.forall_mem_cons, List.not_mem_nil]
  constructor
  · rintro ⟨h12, h_2, h2, -⟩
    exact ⟨fun _ => h12, fun _ => h_2, fun _ => h2, fun hne => absurd rfl hne, by rintro _ ⟨⟩⟩
  · rintro ⟨h12, h_2, h2, -⟩
    exact ⟨h12 (by decide), h_2 (by decide), h2 (by decide), by rintro _ ⟨⟩⟩

theorem firstAt_sampleBody_iff :
    Text.FirstAt scheme.separator.toList (scheme.sampleBody false) 3 ↔ scheme.VersionWhole :=
  calc
    _ ↔ Text.FirstAt scheme.separator.toList ("1_2".toList ++ scheme.separator.toList) 3 :=
      @Text.firstAt_append_iff _ "1_2".toList _ _
    _ ↔ _ := Text.firstAt_append_self_iff.trans versionWhole_iff.symm

/-- The name of a versioned migration is read as what it shows exactly if no separator begins within
the version. -/
theorem read_sample_versioned_iff :
    scheme.read (scheme.sample false) false = .ok ⟨some ⟨["1", "2"], "1.2"⟩, "Description"⟩ ↔
      scheme.VersionWhole := by
  rw [← firstAt_sampleBody_iff, read_sample_eq_ok_iff]
  constructor
  · rintro ⟨version, rest, hcut, hdescription, -, -⟩
    obtain ⟨hbody, hfirst⟩ := Text.cut?_eq_some_iff.1 hcut
    -- a description of eleven characters leaves three for the version
    have hrest : rest.length = 11 := by
      have hlength := congrArg List.length hdescription
      rwa [Text.exchange, List.length_map, eq_comm] at hlength
    have hlength : version.length = 3 := by
      have hlength := congrArg List.length hbody
      simp only [sampleBody, List.length_append, hrest] at hlength
      exact Nat.add_right_cancel (Nat.add_right_cancel hlength).symm
    rwa [hlength] at hfirst
  · intro hfirst
    refine ⟨"1_2".toList, "Description".toList, Text.cut?_eq_some_iff.2 ⟨rfl, hfirst⟩, by decide,
      by decide, rfl, by decide, by decide⟩

/-- If the separator repeats an end of the version, the version is cut off in front of that. -/
theorem cut?_sampleBody (before part : List Char) (hversion : "1_2".toList = before ++ part)
    (h : Text.Repeats part scheme.separator.toList) (hpart : part ≠ [])
    (hbefore : ∀ c ∈ before, part.head? ≠ some c) (hseparator : scheme.separator ≠ "") :
    ∃ rest, Text.cut? scheme.separator.toList (scheme.sampleBody false) = some (before, rest) ∧
      'D' ∈ rest := by
  have hbody : scheme.sampleBody false =
      before ++ (part ++ scheme.separator.toList ++ "Description".toList) := by
    rw [sampleBody, if_neg Bool.false_ne_true, hversion]
    simp only [List.append_assoc]
  obtain ⟨after, hafter⟩ := (Text.prefix_append_self_iff hpart).2 h
  refine ⟨after ++ "Description".toList, Text.cut?_eq_some_iff.2 ⟨?_, ?_⟩,
    List.mem_append_right _ (by decide)⟩
  · rw [hbody, ← hafter]
    simp only [List.append_assoc]
  · rw [hbody]
    exact Text.firstAt_of_repeats h hpart (mt String.toList_eq_nil_iff.1 hseparator) hbefore

/-- What stands before the first separator is a version, if anything can be read. -/
theorem exists_parse_of_read_sample
    (hcut : Text.cut? scheme.separator.toList (scheme.sampleBody false) = some (version, rest))
    (h : scheme.read (scheme.sample false) false = .ok title) :
    ∃ v, Version.parse (String.ofList version) = .ok v := by
  obtain ⟨_, _, hcut', -, -, hdenotes⟩ := read_sample_eq_ok_iff.1 h
  rw [hcut] at hcut'
  cases hcut'
  cases hversion : title.version with
  | none =>
    rw [hversion] at hdenotes
    cases hdenotes.1
  | some v =>
    rw [hversion] at hdenotes
    exact ⟨v, hdenotes.2.2⟩

/-- A separator that begins at `1` leaves nothing for the version, and one that begins at `2` leaves
`1_`; neither is a version. -/
theorem exists_invalidName_of_read_sample (scheme : NameScheme) (hseparator : scheme.separator ≠ "")
    (h : Text.Repeats "1_2".toList scheme.separator.toList ∨
      Text.Repeats "2".toList scheme.separator.toList) :
    ∃ reason, scheme.read (scheme.sample false) false =
      .error (.invalidName (scheme.sample false) reason) := by
  obtain ⟨version, rest, hcut, hversion⟩ : ∃ version rest,
      Text.cut? scheme.separator.toList (scheme.sampleBody false) = some (version, rest) ∧
        ∀ v, Version.parse (String.ofList version) ≠ .ok v := by
    rcases h with h | h
    · obtain ⟨rest, hcut, -⟩ := cut?_sampleBody [] "1_2".toList rfl h (by decide) (by simp)
        hseparator
      exact ⟨[], rest, hcut, by rintro v ⟨⟩⟩
    · obtain ⟨rest, hcut, -⟩ := cut?_sampleBody "1_".toList "2".toList rfl h (by decide) (by simp)
        hseparator
      exact ⟨"1_".toList, rest, hcut, by rintro v ⟨⟩⟩
  cases hread : scheme.read (scheme.sample false) false with
  | ok title =>
    obtain ⟨v, hv⟩ := exists_parse_of_read_sample hcut hread
    exact absurd hv (hversion v)
  | error e =>
    obtain ⟨reason, rfl⟩ := exists_invalidName_of_read hread
    exact ⟨reason, rfl⟩

/-- A separator that begins at `_` leaves the version `1`. -/
theorem exists_read_sample (scheme : NameScheme) (hseparator : scheme.separator ≠ "")
    (h : Text.Repeats "_2".toList scheme.separator.toList) :
    ∃ description,
      scheme.read (scheme.sample false) false = .ok ⟨some ⟨["1"], "1"⟩, description⟩ := by
  obtain ⟨rest, hcut, hD⟩ := cut?_sampleBody "1".toList "_2".toList rfl h (by decide) (by simp)
    hseparator
  have hblank : Text.allBlank (String.ofList (Text.exchange '_' ' ' rest)) = false := by
    rw [Text.allBlank, String.toList_ofList, List.all_eq_false]
    exact ⟨'D', List.mem_map.2 ⟨'D', hD, by decide⟩, by decide⟩
  exact ⟨_, read_sample_eq_ok_iff.2 ⟨_, rest, hcut, String.toList_ofList, hblank, rfl, by decide,
    by decide⟩⟩

end NameScheme

/-! ### Samples of a configuration -/

namespace Config

/-- The names that are shown as samples are read as what they show. -/
structure SamplesRead (c : Config) : Prop where
  versioned : c.versionedScheme.read (c.versionedScheme.sample false) false =
    .ok ⟨some ⟨["1", "2"], "1.2"⟩, "Description"⟩
  repeatable : c.repeatableScheme.read (c.repeatableScheme.sample true) true =
    .ok ⟨none, "Description"⟩

/-- **Samples**: those of a configuration that passes its check are read as what they show exactly
if the separator is no beginning of `1_2`, of `_2` or of `2`, repeated. In the second case the
sample of a versioned migration is read as one of version `1`, in the other two it is refused. -/
theorem samplesRead_iff (c : Config) (hcheck : c.check.result = .ok ()) :
    (c.SamplesRead ↔
      ∀ part ∈ ["1_2", "_2", "2"], ¬ Text.Repeats part.toList c.separator.toList) ∧
    (Text.Repeats "_2".toList c.separator.toList → ∃ description,
      c.versionedScheme.read (c.versionedScheme.sample false) false =
        .ok ⟨some ⟨["1"], "1"⟩, description⟩) ∧
    (Text.Repeats "1_2".toList c.separator.toList ∨ Text.Repeats "2".toList c.separator.toList →
      ∃ reason, c.versionedScheme.read (c.versionedScheme.sample false) false =
        .error (.invalidName (c.versionedScheme.sample false) reason)) := by
  have hseparator : c.separator ≠ "" :=
    (checkMarks_eq_ok_iff.1 (result_check_eq_ok_iff.1 hcheck).1).separator
  have hversioned : c.versionedScheme.read (c.versionedScheme.sample false) false =
        .ok ⟨some ⟨["1", "2"], "1.2"⟩, "Description"⟩ ↔
      ∀ part ∈ ["1_2", "_2", "2"], ¬ Text.Repeats part.toList c.separator.toList :=
    NameScheme.read_sample_versioned_iff
  refine ⟨⟨fun h => hversioned.1 h.versioned, fun h => ⟨hversioned.2 h, ?_⟩⟩, ?_, ?_⟩
  · exact NameScheme.read_sample_repeatable c.repeatableScheme
  · exact c.versionedScheme.exists_read_sample hseparator
  · exact c.versionedScheme.exists_invalidName_of_read_sample hseparator

/-- The default settings with another separator. -/
def separatedBy (separator : String) : Config := { Config.standard with separator }

theorem samplesRead_separatedBy :
    (separatedBy "2_").SamplesRead ∧
      (∃ description, (separatedBy "_2_").versionedScheme.read
        ((separatedBy "_2_").versionedScheme.sample false) false =
          .ok ⟨some ⟨["1"], "1"⟩, description⟩) ∧
      ∃ reason, (separatedBy "22").versionedScheme.read
        ((separatedBy "22").versionedScheme.sample false) false =
          .error (.invalidName ((separatedBy "22").versionedScheme.sample false) reason) := by
  have hwhole : ∀ part ∈ ["1_2", "_2", "2"],
      ¬ Text.Repeats part.toList (separatedBy "2_").separator.toList := by
    have hoverlap : ∀ part ∈ ["1_2", "_2", "2"], part.toList ≠ [] ∧
        ¬ (separatedBy "2_").separator.toList <+:
          part.toList ++ (separatedBy "2_").separator.toList := by decide
    intro part hpart
    obtain ⟨hne, hnot⟩ := hoverlap part hpart
    rwa [Text.prefix_append_self_iff hne] at hnot
  refine ⟨(samplesRead_iff _ rfl).1.2 hwhole, (samplesRead_iff _ rfl).2.1 ⟨2, by decide⟩, ?_⟩
  exact (samplesRead_iff _ rfl).2.2 (.inr ⟨2, by decide⟩)

/-- What is said of the sample where the separator is `1`: it is to be like itself. -/
def sampleRefused : PlanError :=
  .invalidName "V1_21Description.sql"
    "a versioned migration must contain a version (it should look like this: V1_21Description.sql)"

/-- A separator that is part of the version passes the check, but the sample is then read as
something else or refused. -/
theorem not_samplesRead_withinVersion :
    (separatedBy "_").check.result = .ok () ∧
      (separatedBy "_").versionedScheme.read ((separatedBy "_").versionedScheme.sample false)
        false = .ok ⟨some ⟨["1"], "1"⟩, "2 Description"⟩ ∧
      (separatedBy "1").check.result = .ok () ∧
      (separatedBy "1").versionedScheme.read ((separatedBy "1").versionedScheme.sample false)
        false = .error sampleRefused ∧
      ¬ ∀ c : Config, c.check.result = .ok () → c.SamplesRead := by
  have hread : (separatedBy "_").versionedScheme.read
      ((separatedBy "_").versionedScheme.sample false) false =
        .ok ⟨some ⟨["1"], "1"⟩, "2 Description"⟩ := by decide
  refine ⟨rfl, hread, rfl, by decide, fun h => ?_⟩
  have hsample := (h (separatedBy "_") rfl).versioned
  rw [hread] at hsample
  cases hsample

end Config

end SchemaPlan
