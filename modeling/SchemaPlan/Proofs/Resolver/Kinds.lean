import Mathlib.Data.Bool.Basic
import SchemaPlan.Proofs.Config
import SchemaPlan.Proofs.Migration.Order
import SchemaPlan.Proofs.Resolver.Embedded
import SchemaPlan.Proofs.Selection

/-!
# Telling versioned from repeatable scripts

A resolver of scripts scans each location twice, once for each kind of scripts, and by different
markers. The check of a configuration demands that the markers differ. That does not keep the two
kinds apart: where one marker begins with the other, scripts of one kind are scanned for the other
kind as well. What does keep them apart is said by `Config.Separated`, and the main theorem,
`unambiguous_iff_separated`, says that nothing less will do: exactly then each script that can be
read as one of either kind gives exactly one migration.
-/

namespace SchemaPlan

namespace Config

/-! ### Ambiguity -/

/-- Whether a file name begins with a marker and ends with the suffix, even if these overlap. -/
def marks (c : Config) (name : String) : Bool :=
  (Text.startsWith c.versionedMarker.toList name.toList ||
    Text.startsWith c.repeatableMarker.toList name.toList) &&
  Text.endsWith c.suffix.toList name.toList

theorem marks_iff {c : Config} {name : String} :
    c.marks name ↔ (∃ repeatable, (c.scheme repeatable).marker.toList <+: name.toList) ∧
      c.suffix.toList <:+ name.toList := by
  unfold marks
  rw [Bool.and_eq_true, Bool.or_eq_true, Text.startsWith_iff, Text.startsWith_iff,
    Text.endsWith_iff, Bool.exists_bool]
  rfl

/-- The scripts below a location, by the paths and contents that they are held under in memory. -/
def scriptsBelow (c : Config) (storage : Storage) (l : Location) : List (String × List UInt8) :=
  (storage.embedded.below l).filter fun e => c.marks (lastSegment e.1)

/-- A script that is no callback, holds text, and can be read as one of either kind. -/
structure Readable (c : Config) (script : String × List UInt8) : Prop where
  noCallback : isCallbackName (lastSegment script.1) c.suffix = false
  text : ∃ text, Text.decodeText script.2 = .ok text
  named : ∃ repeatable title,
    (c.scheme repeatable).read (lastSegment script.1) repeatable = .ok title

/-- A configuration is unambiguous if the resolver of an embedded location finds one migration for
each script there, as long as all of them are readable. -/
def Unambiguous (c : Config) : Prop :=
  ∀ (scanner : Scanner) (_ : scanner.ReadsBundle) (l : Location) (_ : l.isEmbedded)
    (revision : Nat) (storage : Storage),
    (∀ script ∈ c.scriptsBelow storage l, c.Readable script) →
      ∃ found,
        ((SqlResolver.forLocation l scanner ⟨revision, c⟩).resolve storage).result = .ok found ∧
          (found.map Migration.physicalLocation).Perm
            ((c.scriptsBelow storage l).map placeInMemory)

/-- What keeps the two kinds of scripts apart. -/
structure Separated (c : Config) : Prop where
  /-- The marks of placeholders are not too long to be searched for. -/
  placeholders : c.replacePlaceholders →
    Replacer.automatonSize c.placeholderOpening c.placeholderClosing ≤ Replacer.maxAutomatonSize
  /-- No marker that can stand in the name of a file begins with the other one. -/
  markers : ∀ repeatable, (c.scheme repeatable).FitsName →
    ¬ (c.scheme !repeatable).marker.toList <+: (c.scheme repeatable).marker.toList
  /-- Marker and suffix do not overlap in a name that can be read. -/
  suffix : ∀ repeatable name title, '/' ∉ name.toList → isCallbackName name c.suffix = false →
    c.suffix.toList <:+ name.toList → (c.scheme repeatable).read name repeatable = .ok title →
      (c.scheme repeatable).covers name

/-! ### What is found -/

variable {c : Config} {scanner : Scanner} {l : Location} {revision : Nat} {storage : Storage}

/-- The resolver of an embedded location finds the migrations of what is scanned for each kind. -/
theorem result_resolve_eq_ok_iff (hscanner : scanner.ReadsBundle) (hl : l.isEmbedded)
    {found : List Migration} :
    ((SqlResolver.forLocation l scanner ⟨revision, c⟩).resolve storage).result = .ok found ↔
      ∃ replacer, (SqlResolver.forLocation l scanner ⟨revision, c⟩).activeReplacer = .ok replacer ∧
        ∃ ms : Bool → List Migration,
          (∀ repeatable, List.Forall₂ (fun script m =>
            (SqlResolver.forLocation l scanner ⟨revision, c⟩).migrationOf storage replacer l
              repeatable script = .ok m) (c.scanned storage l repeatable) (ms repeatable)) ∧
          Migration.sort (ms false ++ ms true) = found := by
  rw [SqlResolver.result_resolve_of_bound _ storage rfl, Traversal.bind_eq_ok_iff]
  refine exists_congr fun replacer => and_congr_right fun _ => ?_
  have hfoundIn := @SqlResolver.foundIn_eq_ok_iff_scanned
    (SqlResolver.forLocation l scanner ⟨revision, c⟩) storage replacer l hscanner hl
  rw [Traversal.map_eq_ok_iff]
  constructor
  · rintro ⟨_, hfound, hsort⟩
    obtain ⟨ms, hms, rfl⟩ := hfoundIn.1 hfound
    exact ⟨ms, hms, hsort⟩
  · rintro ⟨ms, hms, hsort⟩
    exact ⟨_, hfoundIn.2 ⟨ms, hms, rfl⟩, hsort⟩

/-- Each scanned script gives one migration, for each kind that it is scanned for. -/
theorem places_of_resolve (hscanner : scanner.ReadsBundle) (hl : l.isEmbedded)
    {found : List Migration}
    (h : ((SqlResolver.forLocation l scanner ⟨revision, c⟩).resolve storage).result = .ok found) :
    (found.map Migration.physicalLocation).Perm
      ((c.scanned storage l false ++ c.scanned storage l true).map placeInMemory) := by
  obtain ⟨replacer, -, ms, hms, rfl⟩ := (result_resolve_eq_ok_iff hscanner hl).1 h
  rw [List.map_append, ← SqlResolver.places_of_migrationOf (hms false),
    ← SqlResolver.places_of_migrationOf (hms true), ← List.map_append]
  exact (Migration.sort_perm _).map _

/-- If all scanned scripts can be read, each has a migration. -/
theorem exists_migrationOf {replacer : Option Replacer} {repeatable : Bool}
    {script : String × List UInt8} (hbelow : script ∈ storage.embedded.below l)
    (htext : ∃ text, Text.decodeText script.2 = .ok text)
    (hname : ∃ title, (c.scheme repeatable).read (lastSegment script.1) repeatable = .ok title) :
    ∃ m, (SqlResolver.forLocation l scanner ⟨revision, c⟩).migrationOf storage replacer l repeatable
      script = .ok m := by
  obtain ⟨text, htext⟩ := htext
  obtain ⟨title, htitle⟩ := hname
  obtain ⟨checksum, hchecksum⟩ : ∃ checksum, c.checksumPolicy.resourceChecksum storage.files
      (Bundle.resource (Bundle.base l) script) = .ok checksum := by
    unfold ChecksumPolicy.resourceChecksum Resource.text
    rw [Bundle.bytes_resource]
    cases c.checksumPolicy with
    | rawBytes => exact ⟨_, rfl⟩
    | lines | trimmedLines => exact ⟨_, by simp only [htext, bind, Except.bind]; rfl⟩
  refine ⟨_, SqlResolver.migration_eq_ok_iff.2 ⟨title, checksum, _, ?_, hchecksum, rfl,
    NameScheme.allBlank_of_read htitle, rfl⟩⟩
  show (c.scheme repeatable).read (Bundle.resource (Bundle.base l) script).filename repeatable = _
  rw [Bundle.filename_resource (Bundle.mem_below_iff.1 hbelow).2, htitle]

/-- With a replacer the resolver succeeds if all scanned scripts have migrations. -/
theorem exists_resolve (hscanner : scanner.ReadsBundle) (hl : l.isEmbedded)
    {replacer : Option Replacer}
    (hreplacer : (SqlResolver.forLocation l scanner ⟨revision, c⟩).activeReplacer = .ok replacer)
    (hscanned : ∀ repeatable, ∀ script ∈ c.scanned storage l repeatable,
      ∃ m, (SqlResolver.forLocation l scanner ⟨revision, c⟩).migrationOf storage replacer l
        repeatable script = .ok m) :
    ∃ found, ((SqlResolver.forLocation l scanner ⟨revision, c⟩).resolve storage).result =
      .ok found := by
  have hms : ∀ repeatable, ∃ ms, List.Forall₂ (fun script m =>
      (SqlResolver.forLocation l scanner ⟨revision, c⟩).migrationOf storage replacer l repeatable
        script = .ok m) (c.scanned storage l repeatable) ms := fun repeatable => by
    simp only [← Traversal.mapM_eq_ok_iff, Traversal.exists_mapM_eq_ok_iff]
    exact hscanned repeatable
  obtain ⟨ms, hms⟩ := Classical.axiomOfChoice hms
  exact ⟨_, (result_resolve_eq_ok_iff hscanner hl).2 ⟨replacer, hreplacer, ms, hms, rfl⟩⟩

theorem exists_activeReplacer_iff (h : c.Marked) :
    (∃ replacer, (SqlResolver.forLocation l scanner ⟨revision, c⟩).activeReplacer = .ok replacer) ↔
      (c.replacePlaceholders →
        Replacer.automatonSize c.placeholderOpening c.placeholderClosing ≤
          Replacer.maxAutomatonSize) := by
  have hswap : (SqlResolver.forLocation l scanner ⟨revision, c⟩).activeReplacer =
      if c.replacePlaceholders then c.replacer.map some else .ok none := by
    show (if !c.replacePlaceholders then Except.ok none else c.replacer.map some) = _
    cases c.replacePlaceholders <;> rfl
  rw [hswap]
  exact exists_replacer?_iff h

/-! ### Names of both kinds -/

/-- A scheme covers the names that begin with its marker, end with the suffix, and have room for
both. -/
theorem covers_of_prefix {scheme scheme' : NameScheme} {name : String}
    (hsuffix : scheme'.suffix = scheme.suffix)
    (hmarker : scheme'.marker.toList <+: scheme.marker.toList) (h : scheme.covers name) :
    scheme'.covers name := by
  obtain ⟨mid, hmid⟩ := hasAffixes_iff.1 h
  obtain ⟨rest, hrest⟩ := hmarker
  refine hasAffixes_iff.2 ⟨rest ++ mid, ?_⟩
  rw [hmid, ← hrest, hsuffix]
  simp only [List.append_assoc]

theorem marker_prefix_of_covers {scheme : NameScheme} {name : String} (h : scheme.covers name) :
    scheme.marker.toList <+: name.toList := by
  obtain ⟨mid, hmid⟩ := hasAffixes_iff.1 h
  exact ⟨mid ++ scheme.suffix.toList, by rw [hmid, List.append_assoc]⟩

theorem marks_of_covers {repeatable : Bool} {name : String}
    (h : (c.scheme repeatable).covers name) : c.marks name := by
  obtain ⟨mid, hmid⟩ := hasAffixes_iff.1 h
  rw [suffix_scheme] at hmid
  exact marks_iff.2 ⟨⟨repeatable, marker_prefix_of_covers h⟩, ⟨_, hmid.symm⟩⟩

/-- No marker begins with the other one. -/
def MarkersDiffer (c : Config) : Prop :=
  ∀ repeatable, ¬ (c.scheme !repeatable).marker.toList <+: (c.scheme repeatable).marker.toList

/-- What begins with one marker does not begin with the other. -/
theorem MarkersDiffer.not_prefix {repeatable : Bool} {name : String} (h : c.MarkersDiffer)
    (hmarker : (c.scheme repeatable).marker.toList <+: name.toList) :
    ¬ (c.scheme !repeatable).marker.toList <+: name.toList := by
  intro hother
  rcases List.prefix_or_prefix_of_prefix hother hmarker with hprefix | hprefix
  · exact h repeatable hprefix
  · refine h (!repeatable) ?_
    rwa [Bool.not_not]

/-- A name that one scheme covers is not covered by the other. -/
theorem MarkersDiffer.not_covers {repeatable : Bool} {name : String} (h : c.MarkersDiffer)
    (hcovers : (c.scheme repeatable).covers name) : (c.scheme !repeatable).covers name = false :=
  Bool.eq_false_iff.2 fun hother =>
    h.not_prefix (marker_prefix_of_covers hcovers) (marker_prefix_of_covers hother)

/-- If no marker begins with the other one, a name of one kind has not the marker of the other. -/
theorem not_marker_prefix_of_read
    (hmarkers : ∀ repeatable, (c.scheme repeatable).FitsName →
      ¬ (c.scheme !repeatable).marker.toList <+: (c.scheme repeatable).marker.toList)
    {repeatable : Bool} {name : String} {title : Title} (hslash : '/' ∉ name.toList)
    (hsuffix : c.suffix.toList <:+ name.toList)
    (hread : (c.scheme repeatable).read name repeatable = .ok title) :
    ¬ (c.scheme !repeatable).marker.toList <+: name.toList := by
  intro hother
  have hmarker := NameScheme.marker_prefix_of_read hread
  have hfits : ∀ kind, (c.scheme kind).marker.toList <+: name.toList →
      (c.scheme kind).FitsName := fun kind hkind =>
    { marker := fun h => hslash (hkind.subset h)
      separator := fun h => hslash (NameScheme.separator_subset_of_read hread (by simpa using h))
      suffix := fun h => hslash (hsuffix.subset (by simpa using h)) }
  -- of two beginnings of one name, one begins with the other
  rcases List.prefix_or_prefix_of_prefix hother hmarker with h | h
  · exact hmarkers repeatable (hfits _ hmarker) h
  · refine hmarkers (!repeatable) (hfits _ hother) ?_
    rwa [Bool.not_not]

/-! ### One script -/

/-- A storage with one resource. -/
def holding (name : String) : Storage where
  embedded := ⟨⟨[(name, [])], List.pairwise_singleton _ _⟩⟩

theorem below_holding (name : String) :
    (holding name).embedded.below ⟨.embedded, ""⟩ = [(name, [])] := rfl

/-- If a single script is readable, and scripts are unambiguous, it is scanned for one kind. -/
theorem exists_only_kind (h : c.Unambiguous) {name : String} (hslash : '/' ∉ name.toList)
    (hcallback : isCallbackName name c.suffix = false) (hmarks : c.marks name)
    (hnamed : ∃ repeatable title, (c.scheme repeatable).read name repeatable = .ok title) :
    ∃ repeatable, (c.scheme repeatable).covers name ∧
      (c.scheme !repeatable).covers name = false := by
  have hname := lastSegment_eq_self hslash
  have hscripts : c.scriptsBelow (holding name) ⟨.embedded, ""⟩ = [(name, [])] := by
    rw [scriptsBelow, below_holding, List.filter_singleton, hname, hmarks]
    rfl
  have hscanned : ∀ repeatable, (c.scanned (holding name) ⟨.embedded, ""⟩ repeatable).length =
      ((c.scheme repeatable).covers name).toNat := by
    intro repeatable
    rw [scanned, below_holding, List.filter_singleton, wants, hname, hcallback]
    cases (c.scheme repeatable).covers name <;> rfl
  have hreadable : ∀ script ∈ c.scriptsBelow (holding name) ⟨.embedded, ""⟩, c.Readable script := by
    rw [hscripts, List.forall_mem_singleton]
    exact ⟨hname.symm ▸ hcallback, ⟨"", rfl⟩, hname.symm ▸ hnamed⟩
  obtain ⟨found, hfound, hperm⟩ := h .embedded Scanner.readsBundle_embedded ⟨.embedded, ""⟩ rfl 0
    (holding name) hreadable
  have hplaces := places_of_resolve Scanner.readsBundle_embedded rfl hfound
  have hlength := (hperm.symm.trans hplaces).length_eq
  rw [hscripts, List.length_map, List.length_map, List.length_append, hscanned, hscanned,
    List.length_singleton] at hlength
  cases hversioned : (c.scheme false).covers name <;>
    cases hrepeatable : (c.scheme true).covers name <;>
    simp only [hversioned, hrepeatable, Bool.toNat_false, Bool.toNat_true] at hlength
  · cases hlength
  · exact ⟨true, hrepeatable, hversioned⟩
  · exact ⟨false, hversioned, hrepeatable⟩
  · cases hlength

/-- Marker and suffix do not overlap if they have no character in common. -/
theorem covers_of_disjoint {scheme : NameScheme} {name : String}
    (hmarker : scheme.marker.toList <+: name.toList) (hsuffix : scheme.suffix.toList <:+ name.toList)
    (h : ∀ c ∈ scheme.marker.toList, c ∉ scheme.suffix.toList) : scheme.covers name := by
  obtain ⟨rest, hrest⟩ := hmarker
  obtain ⟨front, hfront⟩ := hsuffix
  rcases List.append_eq_append_iff.1 (hfront.trans hrest.symm) with
    ⟨common, hmarker, hsuffix⟩ | ⟨mid, -, hmid⟩
  · have hcommon : common = [] := List.eq_nil_iff_forall_not_mem.2 fun c hc =>
      h c (hmarker ▸ List.mem_append_right _ hc) (hsuffix ▸ List.mem_append_left _ hc)
    rw [hcommon, List.nil_append] at hsuffix
    exact hasAffixes_iff.2 ⟨[], by rw [List.append_nil, ← hrest, hsuffix]⟩
  · exact hasAffixes_iff.2 ⟨mid, by rw [← hrest, hmid, List.append_assoc]⟩

/-! ### When scripts are unambiguous -/

/-- Where scripts are unambiguous, the marks keep their kinds apart. -/
theorem separated_of_unambiguous (hmarks : c.Marked) (h : c.Unambiguous) : c.Separated := by
  have hmarkers : ∀ repeatable, (c.scheme repeatable).FitsName →
      ¬ (c.scheme !repeatable).marker.toList <+: (c.scheme repeatable).marker.toList := by
    intro repeatable hfits hprefix
    have hseparator : (c.scheme repeatable).separator ≠ "" := by
      rw [separator_scheme]
      exact hmarks.separator
    obtain ⟨name, hslash, hcovers, hcallback, title, htitle⟩ :=
      NameScheme.exists_readable_name hfits hseparator repeatable
    rw [suffix_scheme] at hcallback
    have hboth : ∀ kind, (c.scheme kind).covers name := by
      have hother := covers_of_prefix (by rw [suffix_scheme, suffix_scheme]) hprefix hcovers
      intro kind
      rcases Bool.eq_or_eq_not kind repeatable with rfl | rfl
      · exact hcovers
      · exact hother
    obtain ⟨kind, -, hkind⟩ := exists_only_kind h hslash hcallback (marks_of_covers hcovers)
      ⟨repeatable, title, htitle⟩
    rw [hboth] at hkind
    cases hkind
  refine ⟨?_, hmarkers, ?_⟩
  · -- without any scripts all that can fail is the replacer
    obtain ⟨found, hfound, -⟩ := h .embedded Scanner.readsBundle_embedded ⟨.embedded, ""⟩ rfl 0 {}
      (List.forall_mem_nil _)
    obtain ⟨replacer, hreplacer, -⟩ :=
      (result_resolve_eq_ok_iff Scanner.readsBundle_embedded rfl).1 hfound
    exact (exists_activeReplacer_iff hmarks).1 ⟨replacer, hreplacer⟩
  · intro repeatable name title hslash hcallback hsuffix hread
    obtain ⟨kind, hkind, -⟩ := exists_only_kind h hslash hcallback
      (marks_iff.2 ⟨⟨repeatable, NameScheme.marker_prefix_of_read hread⟩, hsuffix⟩)
      ⟨repeatable, title, hread⟩
    rcases Bool.eq_or_eq_not kind repeatable with rfl | rfl
    · exact hkind
    · exact absurd (marker_prefix_of_covers hkind)
        (not_marker_prefix_of_read hmarkers hslash hsuffix hread)

/-- Where the marks keep the kinds apart, a readable script is scanned for the kind that it can be
read as, and for that kind only. -/
theorem kind_of_readable (h : c.Separated) {script : String × List UInt8}
    (hmarks : c.marks (lastSegment script.1)) (hreadable : c.Readable script) :
    ∃ repeatable title,
      (c.scheme repeatable).read (lastSegment script.1) repeatable = .ok title ∧
        (c.scheme repeatable).covers (lastSegment script.1) = true ∧
        (c.scheme !repeatable).covers (lastSegment script.1) = false := by
  obtain ⟨repeatable, title, hread⟩ := hreadable.named
  have hslash := slash_not_mem_lastSegment script.1
  have hsuffix := (marks_iff.1 hmarks).2
  refine ⟨repeatable, title, hread,
    h.suffix repeatable _ title hslash hreadable.noCallback hsuffix hread, ?_⟩
  refine Bool.eq_false_iff.2 fun hother => ?_
  exact not_marker_prefix_of_read h.markers hslash hsuffix hread (marker_prefix_of_covers hother)

/-- Of readable scripts each is scanned for one kind. -/
theorem scanned_perm (h : c.Separated)
    (hreadable : ∀ script ∈ c.scriptsBelow storage l, c.Readable script) :
    (c.scanned storage l false ++ c.scanned storage l true).Perm (c.scriptsBelow storage l) := by
  have hone : ∀ script ∈ storage.embedded.below l, c.marks (lastSegment script.1) →
      ∃ repeatable, c.wants repeatable script.1 = true ∧ c.wants (!repeatable) script.1 = false := by
    intro script hscript hmarks
    have hreadable := hreadable script (List.mem_filter.2 ⟨hscript, hmarks⟩)
    obtain ⟨repeatable, -, -, hcovers, hother⟩ := kind_of_readable h hmarks hreadable
    refine ⟨repeatable, ?_, ?_⟩
    · rw [wants, hcovers, hreadable.noCallback]
      rfl
    · rw [wants, hother, Bool.false_and]
  have hmarks : ∀ {repeatable : Bool} {path : String}, c.wants repeatable path →
      c.marks (lastSegment path) := fun hwants =>
    marks_of_covers (Bool.and_eq_true_iff.1 hwants).1
  refine (Selection.filter_append_filter_perm fun script hscript hboth => ?_).trans
    (.of_eq (List.filter_congr fun script hscript => ?_))
  · obtain ⟨repeatable, -, hother⟩ := hone script hscript (hmarks hboth.1)
    cases repeatable with
    | false => exact Bool.false_ne_true (hother.symm.trans hboth.2)
    | true => exact Bool.false_ne_true (hother.symm.trans hboth.1)
  · rw [Bool.eq_iff_iff, Bool.or_eq_true]
    refine ⟨fun hwants => hwants.elim hmarks hmarks, fun hmarked => ?_⟩
    obtain ⟨repeatable, hwants, -⟩ := hone script hscript hmarked
    cases repeatable with
    | false => exact .inl hwants
    | true => exact .inr hwants

/-- Where the marks keep the kinds apart, scripts are unambiguous. -/
theorem unambiguous_of_separated (hmarks : c.Marked) (h : c.Separated) : c.Unambiguous := by
  intro scanner hscanner l hl revision storage hreadable
  obtain ⟨replacer, hreplacer⟩ := (exists_activeReplacer_iff hmarks).2 h.placeholders
  have hmigrations : ∀ repeatable, ∀ script ∈ c.scanned storage l repeatable,
      ∃ m, (SqlResolver.forLocation l scanner ⟨revision, c⟩).migrationOf storage replacer l
        repeatable script = .ok m := by
    intro repeatable script hscript
    obtain ⟨hbelow, hscript⟩ := List.mem_filter.1 hscript
    have hcovers := (Bool.and_eq_true_iff.1 hscript).1
    have hreadable := hreadable script (List.mem_filter.2 ⟨hbelow, marks_of_covers hcovers⟩)
    obtain ⟨kind, title, hread, -, hother⟩ :=
      kind_of_readable h (marks_of_covers hcovers) hreadable
    rcases Bool.eq_or_eq_not repeatable kind with rfl | rfl
    · exact exists_migrationOf hbelow hreadable.text ⟨title, hread⟩
    · rw [hcovers] at hother
      cases hother
  obtain ⟨found, hfound⟩ := exists_resolve hscanner hl hreplacer hmigrations
  exact ⟨found, hfound,
    (places_of_resolve hscanner hl hfound).trans ((scanned_perm h hreadable).map _)⟩

/-- **What makes scripts unambiguous**: that the check of a configuration is passed is not enough;
exactly where the marks keep the two kinds apart, each readable script is found once. -/
theorem unambiguous_iff_separated (c : Config) (h : c.check.result = .ok ()) :
    c.Unambiguous ↔ c.Separated := by
  have hmarks := checkMarks_eq_ok_iff.1 (result_check_eq_ok_iff.1 h).1
  exact ⟨separated_of_unambiguous hmarks, unambiguous_of_separated hmarks⟩

/-- The default marks keep the kinds apart. -/
theorem separated_standard : Config.standard.Separated where
  placeholders _ := by decide
  markers := by
    rw [Bool.forall_bool]
    exact ⟨fun _ => by decide, fun _ => by decide⟩
  suffix := by
    intro repeatable name title _ _ hsuffix hread
    refine covers_of_disjoint (NameScheme.marker_prefix_of_read hread) ?_ ?_
    · rwa [suffix_scheme]
    · cases repeatable <;> simp [scheme, standard, versionedScheme, repeatableScheme]

theorem unambiguous_standard :
    Config.standard.check.result = .ok () ∧ Config.standard.Unambiguous := by
  have h : Config.standard.check.result = .ok () := by rfl
  exact ⟨h, (unambiguous_iff_separated .standard h).2 separated_standard⟩

/-- Markers of which one begins with the other. -/
def nestedMarkers : Config := { Config.standard with repeatableMarker := "VR" }

/-- A storage with one script, which is repeatable by these markers. -/
def holdingView : Storage where
  embedded := ({} : Bundle).add "db/VR__View.sql" (Text.bytesOf "SELECT 1")

/-- What the scan for versioned scripts says about it. -/
def viewRefused : PlanError :=
  .resolver "sql" "embedded:db" (.invalidName "VR__View.sql"
    "Invalid version 'R': component 'R' is not a non-negative integer")

/-- The check lets nested markers pass, but the resolver fails on a script that can be read. -/
theorem not_unambiguous_nestedMarkers :
    nestedMarkers.check.result = .ok () ∧
      ((SqlResolver.forLocation ⟨.embedded, "db"⟩ .embedded ⟨0, nestedMarkers⟩).resolve
        holdingView).result = .error viewRefused ∧
      ¬ nestedMarkers.Unambiguous := by
  have hresolve : ((SqlResolver.forLocation ⟨.embedded, "db"⟩ .embedded
      ⟨0, nestedMarkers⟩).resolve holdingView).result = .error viewRefused := by rfl
  refine ⟨rfl, hresolve, fun h => ?_⟩
  have hscripts : nestedMarkers.scriptsBelow holdingView ⟨.embedded, "db"⟩ =
      [("db/VR__View.sql", Text.bytesOf "SELECT 1")] := by rfl
  obtain ⟨found, hfound, -⟩ := h .embedded Scanner.readsBundle_embedded ⟨.embedded, "db"⟩ rfl 0
    holdingView <| by
      rw [hscripts, List.forall_mem_singleton]
      exact ⟨rfl, ⟨"SELECT 1", rfl⟩, ⟨true, ⟨none, "View"⟩, rfl⟩⟩
  rw [hresolve] at hfound
  cases hfound

end Config

end SchemaPlan
