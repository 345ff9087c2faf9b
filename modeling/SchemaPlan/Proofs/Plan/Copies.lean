import SchemaPlan.Proofs.Checksum.Resaving
import SchemaPlan.Proofs.InStep
import SchemaPlan.Proofs.Location.Coverage
import SchemaPlan.Proofs.Plan.Defaults
import SchemaPlan.Proofs.Plan.Overlap
import SchemaPlan.Proofs.Storage.Holds

/-!
# Copies of a script in two packages

Two packages hold copies of one script, each saved again in its own way, under one path. The records
that are made of them agree in all but the places of the copies (`recordOf_eq`), so they are
duplicates. What a package holds under a path is found there (`mem_foundAt_iff_record`) and, since
neither package is inside the other, nowhere else (`record_of_place`). So of the pair a plan has the
record from the package that was configured first and nothing else (`one_of_two_copies`).
-/

namespace SchemaPlan

/-! ### Two packages -/

/-- The configured locations are two packages of which neither is inside the other. -/
structure Config.TwoPackages (c : Config) (k l : Location) : Prop where
  configured : ∃ ls, Location.parseAll c.locations = .ok ls ∧ Location.distinct ls = [k, l]
  first : k.isEmbedded
  second : l.isEmbedded
  apart : ¬ k.encloses l
  apart' : ¬ l.encloses k

namespace Config.TwoPackages

variable {c : Config} {k l : Location} (h : c.TwoPackages k l)

include h

/-- Both are roots, in the order in which they are configured. -/
theorem result_roots : c.roots.result = .ok [k, l] := by
  obtain ⟨ls, hparse, hdistinct⟩ := h.configured
  have hself : ∀ j : Location, j.encloses j = false := fun j =>
    Bool.eq_false_iff.2 fun hj => (Location.encloses_iff_text.1 hj).2.1 rfl
  have hroots : Location.roots ls = [k, l] := by
    unfold Location.roots Location.parent?
    rw [hdistinct]
    simp [hself, Bool.eq_false_iff.2 h.apart, Bool.eq_false_iff.2 h.apart']
  rw [Config.roots, Location.result_parseRoots, hparse, ← hroots]
  rfl

/-- They share no path. -/
theorem not_covers {path : List Char} (hk : k.covers path) : ¬ l.covers path := by
  obtain ⟨ls, hparse, -⟩ := h.configured
  have hroots := h.result_roots
  rw [Config.roots, Location.result_parseRoots, hparse] at hroots
  have hpairwise := Location.pairwise_roots (Location.made_of_parseAll hparse)
  rw [Except.ok.inj hroots] at hpairwise
  exact fun hl => (List.pairwise_cons.1 hpairwise).1 l List.mem_cons_self path ⟨hk, hl⟩

end Config.TwoPackages

/-- A package holds a copy of a text under a path. -/
structure Bundle.HoldsCopy (resources : Bundle) (l : Location) (path text : String)
    (content : List UInt8) : Prop where
  held : (Bundle.base l ++ path, content) ∈ resources.entries.toList
  copy : CopyOf text content

/-- Whether a migration is that of a script of one kind under a path. -/
def Migration.isScriptOf (path : String) (repeatable : Bool) (m : Migration) : Bool :=
  m.kind = .sql && m.script = path && m.isRepeatable == repeatable

theorem Migration.isScriptOf_iff {path : String} {repeatable : Bool} {m : Migration} :
    m.isScriptOf path repeatable ↔
      m.kind = .sql ∧ m.script = path ∧ m.isRepeatable = repeatable := by
  simp [isScriptOf, and_assoc]

theorem Migration.isScriptOf_eq_of_same {a b : Migration} (h : a.same b) (path : String)
    (repeatable : Bool) : a.isScriptOf path repeatable = b.isScriptOf path repeatable := by
  obtain ⟨hversion, -, hscript, -, hkind⟩ := same_iff.1 h
  rw [isScriptOf, isScriptOf, hscript, hkind, isRepeatable_eq hversion]

/-! ### What is found in a package -/

namespace CompositeParts

variable {parts : CompositeParts} {storage : Storage} {replacer : Option Replacer} {k l : Location}
  {path text : String} {content content' : List UInt8} {repeatable : Bool}
  {found : List Migration} {m m' : Migration}

/-- The record of a script in a package, as one of one kind. -/
def recordOf (parts : CompositeParts) (storage : Storage) (replacer : Option Replacer)
    (l : Location) (path : String) (content : List UInt8) (repeatable : Bool) :
    Except PlanError Migration :=
  (Composite.scriptResolver parts replacer l).migrationOf storage replacer l repeatable
    (Bundle.base l ++ path, content)

/-- The place of a script in a package. -/
def scriptPlace (l : Location) (path : String) : String :=
  Medium.embedded.scheme ++ (Bundle.base l ++ path)

/-- Apart from its place, a record says what the name and the checksum say. -/
theorem recordOf_eq {sum : Int32}
    (hsum : parts.issued.config.checksumPolicy.contentChecksum? content = some sum) :
    parts.recordOf storage replacer l path content repeatable =
      ((parts.issued.config.scheme repeatable).read (lastSegment path) repeatable).map fun title =>
        ⟨title.version, title.description, path, some sum, .sql, scriptPlace l path,
          .script (.inMemory path (scriptPlace l path) content) replacer⟩ := by
  have hchecksum : parts.issued.config.checksumPolicy.resourceChecksum storage.files
      (.inMemory path (scriptPlace l path) content) = .ok sum :=
    ChecksumPolicy.resourceChecksum_eq_ok_iff.2 ⟨content, rfl, hsum⟩
  rw [recordOf, SqlResolver.migrationOf, SqlResolver.migration_of_standard rfl,
    Bundle.resource_append]
  show (parts.issued.config.scheme repeatable).read (lastSegment path) repeatable >>= (fun title =>
    parts.issued.config.checksumPolicy.resourceChecksum storage.files
      (.inMemory path (scriptPlace l path) content) >>= _) = _
  rw [hchecksum]
  cases htitle : (parts.issued.config.scheme repeatable).read (lastSegment path) repeatable with
  | error e => rfl
  | ok title =>
    show (if Text.allBlank title.description then _ else _) = _
    rw [NameScheme.allBlank_of_read htitle, if_neg Bool.false_ne_true]
    rfl

/-- A record says which script it is of and where that was found. -/
theorem of_recordOf (h : parts.recordOf storage replacer l path content repeatable = .ok m) :
    m.isScriptOf path repeatable ∧ m.physicalLocation = scriptPlace l path := by
  have hrepeatable := (SqlResolver.of_migrationOf rfl rfl h).2
  rw [recordOf, SqlResolver.migrationOf, Bundle.resource_append] at h
  rw [Migration.isScriptOf_iff, hrepeatable]
  obtain ⟨_, _, _, _, _, _, _, rfl⟩ := SqlResolver.migration_eq_ok_iff.1 h
  exact ⟨⟨rfl, rfl, rfl⟩, rfl⟩

theorem mem_scanned (hheld : (Bundle.base l ++ path, content) ∈ storage.embedded.entries.toList)
    (hwants : parts.issued.config.wants repeatable path) :
    (Bundle.base l ++ path, content) ∈ parts.issued.config.scanned storage l repeatable :=
  List.mem_filter.2 ⟨Bundle.mem_below_base_append_iff.2 hheld,
    (Config.wants_base_append _ _ l path).trans hwants⟩

section Package

variable (hscanner : parts.scanner.ReadsBundle)
  (hreplacer : Composite.sharedReplacer parts.issued.config = .ok replacer) (hl : l.isEmbedded)
  (h : parts.foundAt storage replacer l = .ok found)

include hreplacer h in
theorem kind_of_mem_foundAt (hm : m ∈ found) :
    m.kind = .sql ∨ ∃ kind : UnitKind, m.kind = kind.artifact := by
  obtain ⟨scripts, code, statements, hscripts, hcode, hstatements, rfl⟩ :=
    (foundAt_eq_ok_iff hreplacer).1 h
  rw [List.mem_append, List.mem_append, Migration.mem_sort] at hm
  rcases hm with hm | hm | hm
  · exact .inl (SqlResolver.kind_of_mem_foundIn hscripts m hm)
  · exact .inr ⟨_, UnitResolver.kind_of_mem_resolve rfl hcode m hm⟩
  · exact .inr ⟨_, UnitResolver.kind_of_mem_resolve rfl hstatements m hm⟩

include hscanner hreplacer hl h

/-- What is found of scripts in a package are the migrations of those that are scanned. -/
theorem mem_foundAt_iff_scanned :
    m ∈ found ∧ m.kind = .sql ↔
      ∃ repeatable, ∃ script ∈ parts.issued.config.scanned storage l repeatable,
        (Composite.scriptResolver parts replacer l).migrationOf storage replacer l repeatable
          script = .ok m := by
  obtain ⟨scripts, code, statements, hscripts, hcode, hstatements, rfl⟩ :=
    (foundAt_eq_ok_iff hreplacer).1 h
  have hscanned : m ∈ scripts ↔ _ := SqlResolver.mem_foundIn_iff hscanner hl hscripts
  refine Iff.trans ?_ hscanned
  rw [List.mem_append, List.mem_append, Migration.mem_sort]
  constructor
  · rintro ⟨hm | hm | hm, hkind⟩
    · exact hm
    · rw [UnitResolver.kind_of_mem_resolve rfl hcode m hm] at hkind
      cases hkind
    · rw [UnitResolver.kind_of_mem_resolve rfl hstatements m hm] at hkind
      cases hkind
  · exact fun hm => ⟨.inl hm, SqlResolver.kind_of_mem_foundIn hscripts m hm⟩

/-- What is found of scripts in a package are records, at the places that their paths tell. -/
theorem exists_record_of_mem_foundAt (hm : m ∈ found) (hkind : m.kind = .sql) :
    m.physicalLocation = scriptPlace l m.script ∧
      ∃ content, (Bundle.base l ++ m.script, content) ∈
          parts.issued.config.scanned storage l m.isRepeatable ∧
        parts.recordOf storage replacer l m.script content m.isRepeatable = .ok m := by
  obtain ⟨repeatable, script, hscript, hrecord⟩ :=
    (mem_foundAt_iff_scanned hscanner hreplacer hl h).1 ⟨hm, hkind⟩
  have hrepeatable := (SqlResolver.of_migrationOf rfl rfl hrecord).2
  have hpath : script.1 = Bundle.base l ++ m.script := by
    obtain ⟨_, _, _, -, -, -, -, rfl⟩ := SqlResolver.migration_eq_ok_iff.1 hrecord
    rw [← String.toList_inj, String.toList_append]
    exact Bundle.toList_eq_append_path
      (Bundle.mem_below_iff.1 (List.mem_filter.1 hscript).1).2
  obtain ⟨key, content⟩ := script
  obtain rfl : key = Bundle.base l ++ m.script := hpath
  rw [← hrepeatable] at hscript hrecord
  exact ⟨(of_recordOf hrecord).2, content, hscript, hrecord⟩

/-- What is found of a script in a package is its record. -/
theorem mem_foundAt_iff_record
    (hheld : (Bundle.base l ++ path, content) ∈ storage.embedded.entries.toList) :
    m ∈ found ∧ m.isScriptOf path repeatable ↔
      parts.issued.config.wants repeatable path ∧
        parts.recordOf storage replacer l path content repeatable = .ok m := by
  constructor
  · rintro ⟨hm, hscript⟩
    obtain ⟨hkind, rfl, rfl⟩ := Migration.isScriptOf_iff.1 hscript
    obtain ⟨-, content', hscanned, hrecord⟩ :=
      exists_record_of_mem_foundAt hscanner hreplacer hl h hm hkind
    obtain ⟨hbelow, hwants⟩ := List.mem_filter.1 hscanned
    rw [Config.wants_base_append] at hwants
    obtain rfl : content' = content :=
      Dict.eq_of_mem_toList (Bundle.mem_below_iff.1 hbelow).1 hheld
    exact ⟨hwants, hrecord⟩
  · rintro ⟨hwants, hrecord⟩
    have hmem := (mem_foundAt_iff_scanned hscanner hreplacer hl h).2
      ⟨repeatable, _, mem_scanned hheld hwants, hrecord⟩
    exact ⟨hmem.1, (of_recordOf hrecord).1⟩

end Package

/-- What is found at the place of a script in one of two packages is its record. -/
theorem record_of_place (hscanner : parts.scanner.ReadsBundle)
    (hreplacer : Composite.sharedReplacer parts.issued.config = .ok replacer)
    (hk : k.isEmbedded) (hl : l.isEmbedded)
    (hshared : ∀ path, ¬ (k.covers path ∧ l.covers path))
    (hheld : (Bundle.base k ++ path, content) ∈ storage.embedded.entries.toList)
    {found' : List Migration} (hfound : parts.foundAt storage replacer k = .ok found)
    (hfound' : parts.foundAt storage replacer l = .ok found') (hm : m ∈ found ∨ m ∈ found')
    (hkind : m.kind = .sql) (hplace : m.physicalLocation = scriptPlace k path) :
    parts.recordOf storage replacer k path content m.isRepeatable = .ok m := by
  rcases hm with hm | hm
  · obtain ⟨hown, -⟩ := exists_record_of_mem_foundAt hscanner hreplacer hk hfound hm hkind
    have hkey := (String.append_right_inj _).1 (hown.symm.trans hplace)
    have hscript := (String.append_right_inj _).1 hkey
    exact ((mem_foundAt_iff_record hscanner hreplacer hk hfound hheld).1
      ⟨hm, Migration.isScriptOf_iff.2 ⟨hkind, hscript, rfl⟩⟩).2
  · -- its path would lie in both packages
    obtain ⟨hown, -⟩ := exists_record_of_mem_foundAt hscanner hreplacer hl hfound' hm hkind
    have hkey : Bundle.base l ++ m.script = Bundle.base k ++ path :=
      (String.append_right_inj _).1 (hown.symm.trans hplace)
    have hcovers : ∀ {j : Location} (key : String), j.isEmbedded →
        j.covers (Bundle.base j ++ key).toList := by
      intro j key hj
      rw [String.toList_append]
      exact Location.covers_iff.2 ⟨hj, List.prefix_append _ _⟩
    have hboth := hcovers m.script hl
    rw [hkey] at hboth
    exact absurd ⟨hcovers path hk, hboth⟩ (hshared _)

/-! ### Two copies -/

/-- Two records are duplicates, or neither can be made, for the same reason. -/
def Duplicates (x y : Except PlanError Migration) : Prop :=
  InStep (fun m m' : Migration => m.same m' = true) Eq (fun _ => False) (fun _ => False) x y

theorem same_of_duplicates {x y : Except PlanError Migration} (h : Duplicates x y) (hx : x = .ok m)
    (hy : y = .ok m') : m.same m' := by
  subst hx hy
  cases h with
  | ok hsame => exact hsame

/-- The two configured packages hold copies of a text under one path, and checksums are those of
lines. -/
structure TwoCopies (parts : CompositeParts) (storage : Storage) (k l : Location)
    (path text : String) (content content' : List UInt8) : Prop where
  scanner : parts.scanner.ReadsBundle
  packages : parts.issued.config.TwoPackages k l
  policy : parts.issued.config.checksumPolicy ≠ .rawBytes
  unmarked : text.toList.head? ≠ some Resource.byteOrderMark
  first : storage.embedded.HoldsCopy k path text content
  second : storage.embedded.HoldsCopy l path text content'

namespace TwoCopies

variable (h : parts.TwoCopies storage k l path text content content')

include h

theorem duplicates (replacer : Option Replacer) (repeatable : Bool) :
    Duplicates (parts.recordOf storage replacer k path content repeatable)
      (parts.recordOf storage replacer l path content' repeatable) := by
  have hsum := ChecksumPolicy.contentChecksum?_of_copyOf h.policy h.unmarked h.first.copy
  have hsum' := ChecksumPolicy.contentChecksum?_of_copyOf h.policy h.unmarked h.second.copy
  rw [recordOf_eq hsum, recordOf_eq hsum']
  refine InStep.map (R := Eq) (.refl (fun _ => rfl) (fun _ => rfl) _) fun title _ htitle => ?_
  rw [htitle]
  exact Migration.same_iff.2 ⟨Std.ReflCmp.compare_self, rfl, rfl, rfl, rfl⟩

variable (hreplacer : Composite.sharedReplacer parts.issued.config = .ok replacer)
  {found' : List Migration} (hfound : parts.foundAt storage replacer k = .ok found)
  (hfound' : parts.foundAt storage replacer l = .ok found')

include hreplacer

include hfound in
theorem mem_first_iff :
    m ∈ found ∧ m.isScriptOf path repeatable ↔ parts.issued.config.wants repeatable path ∧
      parts.recordOf storage replacer k path content repeatable = .ok m :=
  mem_foundAt_iff_record h.scanner hreplacer h.packages.first hfound h.first.held

include hfound' in
theorem mem_second_iff :
    m ∈ found' ∧ m.isScriptOf path repeatable ↔ parts.issued.config.wants repeatable path ∧
      parts.recordOf storage replacer l path content' repeatable = .ok m :=
  mem_foundAt_iff_record h.scanner hreplacer h.packages.second hfound' h.second.held

include hfound hfound'

/-- Migrations at the places of the two copies do not contradict each other. -/
theorem not_contradicts (hm : m ∈ found ++ found') (hm' : m' ∈ found ++ found')
    (hplace : m.offender = ⟨scriptPlace k path, ArtifactKind.sql.display⟩)
    (hplace' : m'.offender = ⟨scriptPlace l path, ArtifactKind.sql.display⟩) :
    ¬ m.Contradicts m' := by
  have hsql : ∀ {m place}, m ∈ found ++ found' →
      m.offender = ⟨place, ArtifactKind.sql.display⟩ → m.kind = .sql := by
    intro m place hm hoffender
    have hdisplay := (Offender.mk.inj hoffender).2
    have hkind := (List.mem_append.1 hm).elim (kind_of_mem_foundAt hreplacer hfound)
      (kind_of_mem_foundAt hreplacer hfound')
    rcases hkind with hkind | ⟨kind, hkind⟩
    · exact hkind
    · rw [hkind] at hdisplay
      cases kind <;> exact absurd hdisplay (by decide)
  rintro ⟨hcmp, hne⟩
  have hrecord := record_of_place h.scanner hreplacer h.packages.first h.packages.second
    (fun _ hp => h.packages.not_covers hp.1 hp.2) h.first.held hfound hfound'
    (List.mem_append.1 hm) (hsql hm hplace) (Offender.mk.inj hplace).1
  have hrecord' := record_of_place h.scanner hreplacer h.packages.second h.packages.first
    (fun _ hp => h.packages.not_covers hp.2 hp.1) h.second.held hfound' hfound
    (List.mem_append.1 hm').symm (hsql hm' hplace') (Offender.mk.inj hplace').1
  rw [← Migration.isRepeatable_eq_of_cmp_eq hcmp] at hrecord'
  have hsame := same_of_duplicates (h.duplicates replacer m.isRepeatable) hrecord hrecord'
  rw [hne] at hsame
  cases hsame

variable {plan : Plan} (hplan : plan.MadeOf (found ++ found'))

include hplan

/-- The plan has the record from the package that is configured first. -/
theorem filter_of_wants (hwants : parts.issued.config.wants repeatable path) :
    ∃ m, parts.recordOf storage replacer k path content repeatable = .ok m ∧
      plan.migrations.filter (·.isScriptOf path repeatable) = [m] := by
  obtain ⟨scripts, _, _, hscripts, -⟩ := (foundAt_eq_ok_iff hreplacer).1 hfound
  obtain ⟨m, hm⟩ : ∃ m, parts.recordOf storage replacer k path content repeatable = .ok m :=
    SqlResolver.exists_of_mem_scanned h.scanner h.packages.first hscripts
      (mem_scanned h.first.held hwants)
  -- the first package has nothing else under the path
  have hfirst : ∀ a ∈ found, a.isScriptOf path repeatable → a = m := by
    intro a ha hscript
    have hrecord := ((h.mem_first_iff hreplacer hfound).1 ⟨ha, hscript⟩).2
    rw [hm] at hrecord
    exact (Except.ok.inj hrecord).symm
  refine ⟨m, hm, hplan.filter_eq_singleton
    (fun a b hab => Migration.isScriptOf_eq_of_same hab path repeatable) ?_ fun a ha hscript => ?_⟩
  · have hmem := (h.mem_first_iff hreplacer hfound).2 ⟨hwants, hm⟩
    obtain ⟨a, ha⟩ := Option.isSome_iff_exists.1 (List.find?_isSome.2 ⟨m, hmem⟩)
    have hrecord := hfirst a (List.mem_of_find?_eq_some ha) (List.find?_some ha)
    rw [List.find?_append, ha, hrecord]
    rfl
  · rcases List.mem_append.1 ha with ha | ha
    · rw [hfirst a ha hscript]
      exact Migration.same_self m
    · exact same_of_duplicates (h.duplicates replacer repeatable) hm
        ((h.mem_second_iff hreplacer hfound').1 ⟨ha, hscript⟩).2

/-- The plan has nothing of a file that is not scanned for. -/
theorem filter_of_not_wants (hwants : ¬ parts.issued.config.wants repeatable path) :
    plan.migrations.filter (·.isScriptOf path repeatable) = [] := by
  refine List.filter_eq_nil_iff.2 fun a ha hscript => hwants ?_
  have ha := List.mem_of_find?_eq_some (hplan.first a ha)
  rcases List.mem_append.1 ha with ha | ha
  · exact ((h.mem_first_iff hreplacer hfound).1 ⟨ha, hscript⟩).1
  · exact ((h.mem_second_iff hreplacer hfound').1 ⟨ha, hscript⟩).1

end TwoCopies

/-- With two packages the default resolvers find what is in the first one, then what is in the
second one. -/
theorem answer_of_twoPackages (hdefaults : parts.DefaultsOnly)
    (hskip : parts.issued.config.skipDefaultResolvers = false)
    (hpackages : parts.issued.config.TwoPackages k l) (storage : Storage) :
    (∃ e, parts.answer storage = .error e ∧ ∀ first second, ¬ e.Between first second) ∨
      ∃ replacer found found', Composite.sharedReplacer parts.issued.config = .ok replacer ∧
        parts.foundAt storage replacer k = .ok found ∧
        parts.foundAt storage replacer l = .ok found' ∧
        parts.answer storage = Plan.ofFound (found ++ found') := by
  rw [answer_of_defaultsOnly hdefaults]
  cases hprepared : parts.prepared with
  | error e =>
    exact .inl ⟨e, rfl, fun _ _ => not_between_of_prepared hpackages.result_roots hprepared⟩
  | ok prepared =>
  obtain ⟨roots, replacer⟩ := prepared
  obtain ⟨hroots, hreplacer⟩ := of_prepared_eq_ok hprepared
  rw [hpackages.result_roots] at hroots
  cases hroots
  show (∃ e, parts.foundByDefaults storage replacer [k, l] >>= _ = _ ∧ _) ∨ ∃ _ _ _, _ ∧ _ ∧ _ ∧
    parts.foundByDefaults storage replacer [k, l] >>= _ = _
  rw [foundByDefaults, hskip, if_neg Bool.false_ne_true]
  cases hall : Traversal.gather (parts.foundAt storage replacer) [k, l] with
  | error e =>
    obtain ⟨j, -, hj⟩ := Traversal.exists_of_mapM_eq_error (Traversal.gather_eq_error_iff.1 hall)
    obtain ⟨name, cause, rfl⟩ := resolver_of_foundAt_eq_error hreplacer hj
    refine .inl ⟨_, rfl, ?_⟩
    rintro _ _ ⟨⟩
  | ok all =>
    obtain ⟨found, rest, hfound, hrest, rfl⟩ := Traversal.gather_cons_eq_ok_iff.1 hall
    obtain ⟨found', nothing, hfound', hnothing, rfl⟩ := Traversal.gather_cons_eq_ok_iff.1 hrest
    cases hnothing
    refine .inr ⟨replacer, found, found', hreplacer, hfound, hfound', ?_⟩
    show Plan.ofFound (found ++ (found' ++ [])) = _
    rw [List.append_nil]

/-- **Copies of a script** in two packages, each saved again in its own way: their records are
duplicates, they are never reported to be in conflict, and a plan has one entry for both of them for
each kind of scripts that they are scanned for, which is the record from the package that is
configured first. -/
theorem one_of_two_copies (hdefaults : parts.DefaultsOnly)
    (hskip : parts.issued.config.skipDefaultResolvers = false)
    (h : parts.TwoCopies storage k l path text content content') :
    (∀ replacer repeatable,
      Duplicates (parts.recordOf storage replacer k path content repeatable)
        (parts.recordOf storage replacer l path content' repeatable)) ∧
    (∀ e, parts.answer storage = .error e →
      ¬ e.Between ⟨scriptPlace k path, ArtifactKind.sql.display⟩
          ⟨scriptPlace l path, ArtifactKind.sql.display⟩ ∧
        ¬ e.Between ⟨scriptPlace l path, ArtifactKind.sql.display⟩
          ⟨scriptPlace k path, ArtifactKind.sql.display⟩) ∧
    ∀ plan, parts.answer storage = .ok plan → ∀ repeatable,
      if parts.issued.config.wants repeatable path then
        ∃ replacer m, parts.recordOf storage replacer k path content repeatable = .ok m ∧
          m.physicalLocation = scriptPlace k path ∧
          plan.migrations.filter (·.isScriptOf path repeatable) = [m]
      else plan.migrations.filter (·.isScriptOf path repeatable) = [] := by
  refine ⟨h.duplicates, ?_⟩
  rcases answer_of_twoPackages hdefaults hskip h.packages storage with
    ⟨e, he, hbetween⟩ | ⟨replacer, found, found', hreplacer, hfound, hfound', hanswer⟩
  · rw [he]
    refine ⟨fun e' he' => ?_, nofun⟩
    cases he'
    exact ⟨hbetween _ _, hbetween _ _⟩
  rw [hanswer]
  constructor
  · intro e he
    obtain ⟨m, m', hleast, rfl⟩ := Plan.exists_leastConflict_of_ofFound he
    constructor
    · intro hbetween
      obtain ⟨hm, hm'⟩ := Plan.offender_of_between hbetween
      exact h.not_contradicts hreplacer hfound hfound' hleast.first_mem hleast.second_mem hm.symm
        hm'.symm hleast.contradicts
    · intro hbetween
      obtain ⟨hm, hm'⟩ := Plan.offender_of_between hbetween
      exact h.not_contradicts hreplacer hfound hfound' hleast.second_mem hleast.first_mem hm'.symm
        hm.symm hleast.contradicts.symm
  · intro plan hplan repeatable
    have hmade := Plan.madeOf_of_ofFound hplan
    split
    · next hwants =>
      obtain ⟨m, hm, hentries⟩ := h.filter_of_wants hreplacer hfound hfound' hmade hwants
      exact ⟨replacer, m, hm, (of_recordOf hm).2, hentries⟩
    · next hwants => exact h.filter_of_not_wants hreplacer hfound hfound' hmade hwants

/-- A text of two lines, each with a carriage return and a line feed at its end. -/
def twoLines : String := "a\r\nb\r\n"

/-- The text with other line ends and without the last one. -/
def savedShort : List UInt8 := Text.encode "a\rb".toList

/-- The text with other line ends, one more of them, and a byte order mark. -/
def savedMarked : List UInt8 := Text.encode (Resource.byteOrderMark :: "a\nb\n\n".toList)

/-- Two packages that hold the text, each as it was saved again. -/
def withCopies : Storage where
  embedded := (({} : Bundle).add "db/R__View.sql" savedShort).add "app/R__View.sql" savedMarked

/-- The text with line ends of another style. -/
theorem rewritten_twoLines {e e' : List Char} (he : e ∈ Text.terminators)
    (he' : e' ∈ Text.terminators) :
    Text.Rewritten twoLines.toList ('a' :: (e ++ 'b' :: (e' ++ []))) :=
  have hpair : ['\r', '\n'] ∈ Text.terminators := by decide
  .plain (by decide) (.terminator hpair he (.plain (by decide) (.terminator hpair he' .nil)))

theorem one_of_two_copies_withCopies :
    twoPackages.DefaultsOnly ∧
      twoPackages.TwoCopies withCopies ⟨.embedded, "db"⟩ ⟨.embedded, "app"⟩ "R__View.sql" twoLines
        savedShort savedMarked ∧
      ∃ plan, twoPackages.answer withCopies = .ok plan ∧
        (plan.migrations.filter (·.isScriptOf "R__View.sql" true)).map Migration.physicalLocation =
          ["embedded:db/R__View.sql"] := by
  have hdefaults : twoPackages.DefaultsOnly := ⟨rfl, rfl⟩
  have hpackages : twoPackages.issued.config.TwoPackages ⟨.embedded, "db"⟩ ⟨.embedded, "app"⟩ :=
    ⟨⟨_, rfl, by decide⟩, rfl, rfl, by decide, by decide⟩
  have hshort : CopyOf twoLines savedShort :=
    .plain (@Text.Resaved.dropped _ ['\n'] _
      (@rewritten_twoLines ['\r'] ['\n'] (by decide) (by decide)) (by decide))
  have hmarked : CopyOf twoLines savedMarked :=
    .marked (@Text.Resaved.added _ ['\n'] _
      (@rewritten_twoLines ['\n'] ['\n'] (by decide) (by decide)) (by decide))
  have hcopies : twoPackages.TwoCopies withCopies ⟨.embedded, "db"⟩ ⟨.embedded, "app"⟩
      "R__View.sql" twoLines savedShort savedMarked :=
    ⟨Scanner.readsBundle_embedded, hpackages, by decide, by decide, ⟨by decide +kernel, hshort⟩,
      ⟨by decide +kernel, hmarked⟩⟩
  have hanswer : (twoPackages.answer withCopies).map (fun _ => ()) = .ok () := by decide +kernel
  obtain ⟨plan, hplan, -⟩ := Traversal.map_eq_ok_iff.1 hanswer
  refine ⟨hdefaults, hcopies, plan, hplan, ?_⟩
  have hentries := (one_of_two_copies hdefaults rfl hcopies).2.2 plan hplan true
  rw [if_pos (by decide)] at hentries
  obtain ⟨_, m, -, hplace, hfilter⟩ := hentries
  rw [hfilter, List.map_singleton, hplace]
  decide

end CompositeParts

end SchemaPlan
