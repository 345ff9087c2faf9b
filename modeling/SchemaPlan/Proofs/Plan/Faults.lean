import SchemaPlan.Proofs.Plan.Standalone
import SchemaPlan.Proofs.Resolver.Embedded

/-!
# What can go wrong with the default resolvers

Building a composite resolver ends like the check of its configuration, and after that only marks
around placeholders that are too long for an automaton can be in the way (`exists_build_iff`).

What the default resolvers meet then is of few kinds (`Fault`): a name that cannot be read, a
content that is no text, something on disk that is out of reach, and a code unit with a blank
description. Nothing else is left: what is wrong with a version is reported as what is wrong with
the name that it stands in, and when a draft is completed its description has been looked at already
(`SqlResolver.verdict_migration`, `CodeUnit.verdict_migration`). A fault is reported with its
resolver and its root, so besides conflicts a plan can fail with nothing but faults that are wrapped
once (`Failure`).

If everything is held in memory, each artifact is looked at by itself in a fixed order, and the
first that is bad decides (`FirstBad`). This shows in the verdicts of the resolvers, which are what
they come to apart from what they find: put together, these are one pass over all artifacts
(`verdict_defaultResolvers`).
-/

namespace SchemaPlan

/-! ### Faults of artifacts -/

/-- `Fault c units l resolver cause`: what can be wrong in a location, by the default resolver that
meets it. -/
inductive Fault (c : Config) (units : CodeUnits) (l : Location) : String → PlanError → Prop where
  /-- The name of a script cannot be read. -/
  | scriptName (identifier reason : String) :
    Fault c units l SqlResolver.name (.invalidName identifier reason)
  /-- A script is no text, and the checksum is one of lines. -/
  | scriptContent (place reason : String) (policy : c.checksumPolicy ≠ .rawBytes) :
    Fault c units l SqlResolver.name (.content place reason)
  /-- A directory cannot be listed, or a file cannot be read. -/
  | disk (path reason : String) (medium : l.isFilesystem) :
    Fault c units l SqlResolver.name (.io path reason)
  /-- The name of a code unit cannot be read, and the unit says nothing about itself. -/
  | unitName {kind : UnitKind} {u : CodeUnit} (medium : l.isEmbedded)
    (registered : u ∈ units.within kind l) (silent : u.title = none) (reason : String) :
    Fault c units l kind.name (.invalidName u.name reason)
  /-- A code unit says that it has a blank description. -/
  | unitDescription {kind : UnitKind} {u : CodeUnit} {title : Title} (medium : l.isEmbedded)
    (registered : u ∈ units.within kind l) (stated : u.title = some title)
    (blank : Text.allBlank title.description) :
    Fault c units l kind.name
      (.missingDescription ((title.version.map Version.text).getD u.name))

namespace CompositeParts

variable {parts : CompositeParts} {replacer : Option Replacer} {storage : Storage} {l : Location}
  {given : GivenScanner} {e : PlanError}

/-- What a resolver of scripts can fail at. -/
theorem fault_of_migrationsNamed (hscanner : parts.scanner = given.scanner) {scheme : NameScheme}
    {repeatable : Bool}
    (h : ((Composite.scriptResolver parts replacer l).migrationsNamed storage replacer l scheme
      repeatable).result = .error e) :
    Fault parts.issued.config parts.units l SqlResolver.name e := by
  rw [SqlResolver.result_migrationsNamed] at h
  change (parts.scanner.scan storage l _ _).result >>= _ = _ at h
  rw [hscanner] at h
  rcases Traversal.bind_eq_error_iff.1 h with hscan | ⟨resources, hscan, h⟩
  · obtain ⟨hdisk, path, reason, rfl⟩ := given.io_of_scan_eq_error hscan
    exact .disk path reason hdisk
  obtain ⟨resource, hresource, hmigration⟩ := Traversal.exists_of_mapM_eq_error h
  rw [← Traversal.verdict_eq_error_iff, SqlResolver.verdict_migration rfl rfl] at hmigration
  rcases Traversal.bind_eq_error_iff.1 hmigration with hname | ⟨_, -, hchecksum⟩
  · obtain ⟨reason, rfl⟩ := NameScheme.exists_invalidName_of_read hname
    exact .scriptName _ reason
  rw [Traversal.verdict_eq_error_iff] at hchecksum
  rcases ChecksumPolicy.of_resourceChecksum_eq_error hchecksum with hbytes | ⟨hpolicy, reason, rfl⟩
  · obtain ⟨hdisk, path, reason, rfl⟩ :=
      given.io_of_bytes_eq_error hscan (List.mem_filter.1 hresource).1 hbytes
    exact .disk path reason hdisk
  · exact .scriptContent _ reason hpolicy

theorem fault_of_foundIn (hscanner : parts.scanner = given.scanner)
    (h : (Composite.scriptResolver parts replacer l).foundIn storage replacer l = .error e) :
    ∃ cause, e = .resolver SqlResolver.name l.display cause ∧
      Fault parts.issued.config parts.units l SqlResolver.name cause := by
  obtain ⟨cause, hcause, rfl⟩ := SqlResolver.foundIn_eq_error_iff.1 h
  refine ⟨cause, rfl, ?_⟩
  rw [SqlResolver.result_migrationsIn] at hcause
  rcases Traversal.bind_eq_error_iff.1 hcause with h | ⟨_, -, h⟩
  · exact fault_of_migrationsNamed hscanner h
  rcases Traversal.bind_eq_error_iff.1 h with h | ⟨_, -, ⟨⟩⟩
  exact fault_of_migrationsNamed hscanner h

/-- What a resolver of code units can fail at. -/
theorem fault_of_units {kind : UnitKind}
    (h : (Composite.unitResolver parts kind l).resolve.result = .error e) :
    ∃ cause, e = .resolver kind.name l.display cause ∧
      Fault parts.issued.config parts.units l kind.name cause := by
  rw [UnitResolver.result_resolve rfl, Traversal.map_eq_error_iff] at h
  obtain ⟨cause, hcause, rfl⟩ := Traversal.mapError_eq_error_iff.1 h
  refine ⟨cause, rfl, ?_⟩
  rw [UnitResolver.result_migrationsIn] at hcause
  split at hcause
  · next hl =>
    obtain ⟨u, hu, hmigration⟩ := Traversal.exists_of_mapM_eq_error hcause
    rw [← Traversal.verdict_eq_error_iff, CodeUnit.verdict_migration,
      Traversal.verdict_eq_error_iff] at hmigration
    rcases CodeUnit.of_titleOf_eq_error hmigration with
      ⟨hsilent, reason, rfl⟩ | ⟨title, htitle, hblank, rfl⟩
    · exact .unitName hl hu hsilent reason
    · exact .unitDescription hl hu htitle hblank
  · cases hcause

/-! ### Failures of composite resolvers -/

/-- What a composite resolver of the default resolvers can fail with. -/
inductive Failure (parts : CompositeParts) (roots : List Location) : PlanError → Prop where
  /-- Two migrations with one version. -/
  | versions (version : String) (first second : Offender) :
    Failure parts roots (.versionConflict version first second)
  /-- Two repeatable migrations with one description. -/
  | repeatables (description : String) (first second : Offender) :
    Failure parts roots (.repeatableConflict description first second)
  /-- Something wrong in one of the roots, reported with resolver and root. -/
  | fault {l : Location} {resolver : String} {cause : PlanError} (root : l ∈ roots)
    (fault : Fault parts.issued.config parts.units l resolver cause) :
    Failure parts roots (.resolver resolver l.display cause)

theorem failure_of_ofFound {roots : List Location} {found : List Migration}
    (h : Plan.ofFound found = .error e) : parts.Failure roots e := by
  obtain ⟨a, b, -, rfl⟩ := Plan.exists_leastConflict_of_ofFound h
  unfold Plan.conflict
  split
  · exact .versions _ _ _
  · exact .repeatables _ _ _

/-- What goes wrong in a default resolver is a fault in a root. -/
theorem failure_of_defaultResolvers (hscanner : parts.scanner = given.scanner)
    (hreplacer : Composite.sharedReplacer parts.issued.config = .ok replacer)
    {roots : List Location}
    (h : Traversal.gather (parts.asked parts.issued storage)
      (Composite.defaultResolvers parts replacer roots) = .error e) : parts.Failure roots e := by
  obtain ⟨r, hr, he⟩ := Traversal.exists_of_mapM_eq_error (Traversal.gather_eq_error_iff.1 h)
  unfold Composite.defaultResolvers at hr
  split at hr
  · cases hr
  obtain ⟨l, hl, hr⟩ := List.mem_flatMap.1 hr
  rw [Composite.resolversOf_eq] at hr
  obtain ⟨resolver, cause, rfl, hfault⟩ : ∃ resolver cause, e = .resolver resolver l.display cause ∧
      Fault parts.issued.config parts.units l resolver cause := by
    simp only [List.mem_cons, List.not_mem_nil, or_false] at hr
    rcases hr with rfl | rfl | rfl
    · unfold asked at he
      rw [Composite.result_resolve_scriptResolver hreplacer, Traversal.map_eq_error_iff] at he
      exact ⟨_, fault_of_foundIn hscanner he⟩
    · exact ⟨_, fault_of_units he⟩
    · exact ⟨_, fault_of_units he⟩
  exact .fault hl hfault

end CompositeParts

/-! ### Artifacts in memory -/

/-- What a default resolver looks at in memory. -/
inductive Artifact where
  /-- A script, by path and content, which is taken for one of one kind. -/
  | script (repeatable : Bool) (script : String × List UInt8)
  /-- A code unit of one family. -/
  | unit (kind : UnitKind) (unit : CodeUnit)
deriving DecidableEq

namespace Artifact

/-- The name of the resolver that looks at an artifact. -/
def resolver : Artifact → String
  | script .. => SqlResolver.name
  | unit kind _ => kind.name

/-- What is wrong with an artifact, if anything. A script needs a name of its kind and a checksum, a
code unit needs a title. -/
def check (c : Config) : Artifact → Except PlanError Unit
  | script repeatable s => do
    let _ ← (c.scheme repeatable).read (lastSegment s.1) repeatable
    Traversal.verdict (c.checksumPolicy.resourceChecksum {} (.inMemory s.1 (placeInMemory s) s.2))
  | unit _ u => Traversal.verdict (u.titleOf c)

/-- What is reported about an artifact in a location. -/
def report (c : Config) (l : Location) (a : Artifact) : Except PlanError Unit :=
  (a.check c).mapError (.resolver a.resolver l.display)

end Artifact

/-- The first of some artifacts with something wrong decides on an error. -/
inductive FirstBad (c : Config) : List (Location × Artifact) → PlanError → Prop where
  | intro {before after : List (Location × Artifact)} {l : Location} {a : Artifact}
    {cause : PlanError} (good : ∀ b ∈ before, b.2.check c = .ok ())
    (bad : a.check c = .error cause) :
    FirstBad c (before ++ (l, a) :: after) (.resolver a.resolver l.display cause)

namespace CompositeParts

/-- The scripts of a location in memory, the versioned ones first and each kind by path. -/
def scriptQueue (parts : CompositeParts) (memory : Bundle) (l : Location) : List Artifact :=
  let scanned := parts.issued.config.scanned ⟨{}, memory⟩ l
  (scanned false).map (.script false) ++ (scanned true).map (.script true)

/-- The code units of one family in a location, in the order of registration. -/
def unitQueue (parts : CompositeParts) (kind : UnitKind) (l : Location) : List Artifact :=
  (parts.units.within kind l).map (.unit kind)

/-- The artifacts of some locations in memory, in the order in which they are looked at. -/
def artifacts (parts : CompositeParts) (memory : Bundle) (roots : List Location) :
    List (Location × Artifact) :=
  if parts.issued.config.skipDefaultResolvers then []
  else roots.flatMap fun l =>
    let queue := parts.scriptQueue memory l ++ parts.unitQueue .code l ++
      parts.unitQueue .statements l
    queue.map (l, ·)

/-! ### Verdicts of resolvers -/

variable {parts : CompositeParts} {replacer : Option Replacer} {storage : Storage} {l : Location}
  {given : GivenScanner} {e : PlanError}

theorem verdict_migrationsNamed (hscanner : parts.scanner = given.scanner) (hl : l.isEmbedded)
    (repeatable : Bool) :
    Traversal.verdict ((Composite.scriptResolver parts replacer l).migrationsNamed storage replacer
        l (parts.issued.config.scheme repeatable) repeatable).result =
      forM (parts.issued.config.scanned ⟨{}, given.memory storage⟩ l repeatable) fun s =>
        (Artifact.script repeatable s).check parts.issued.config := by
  rw [SqlResolver.result_migrationsNamed]
  show Traversal.verdict ((parts.scanner.scan storage l _ _).result >>= _) = _
  rw [hscanner, given.result_scan_of_embedded storage _ _ hl]
  have hscripts := SqlResolver.scripts_found parts.issued.config ⟨{}, given.memory storage⟩ l
    repeatable
  show Traversal.verdict (List.mapM _ (SqlResolver.scripts (parts.issued.config.scheme repeatable)
    ((given.memory storage).found l _ _))) = _
  rw [hscripts, List.mapM_map, Traversal.verdict_mapM]
  refine Traversal.forM_congr fun s hs => ?_
  have hbelow := (Bundle.mem_below_iff.1 (List.mem_filter.1 hs).1).2
  rw [Function.comp, SqlResolver.verdict_migration rfl rfl, Bundle.filename_resource hbelow,
    Artifact.check]
  refine bind_congr fun title => ?_
  show Traversal.verdict (parts.issued.config.checksumPolicy.resourceChecksum _ _) = _
  cases parts.issued.config.checksumPolicy <;> rfl

/-- In memory a resolver of scripts fails as the first bad script says. -/
theorem verdict_scripts (hscanner : parts.scanner = given.scanner) (hl : l.isEmbedded) :
    Traversal.verdict
        ((Composite.scriptResolver parts replacer l).foundIn storage replacer l) =
      forM (parts.scriptQueue (given.memory storage) l)
        (Artifact.report parts.issued.config l) := by
  have hnamed := @verdict_migrationsNamed parts replacer storage l given hscanner hl
  have hkinds : Traversal.verdict
      ((Composite.scriptResolver parts replacer l).migrationsIn storage replacer l).result =
        forM (parts.scriptQueue (given.memory storage) l) (Artifact.check parts.issued.config) := by
    rw [SqlResolver.result_migrationsIn, scriptQueue, List.forM_append, List.forM_map,
      List.forM_map, ← hnamed false, ← hnamed true]
    refine Traversal.verdict_bind fun versioned => ?_
    exact Traversal.verdict_bind_pure _ _
  rw [SqlResolver.foundIn, Traversal.verdict_mapError, hkinds, Traversal.mapError_forM]
  refine Traversal.forM_congr fun a ha => ?_
  have hresolver : a.resolver = SqlResolver.name := by
    rcases List.mem_append.1 ha with ha | ha <;>
    · obtain ⟨s, -, rfl⟩ := List.mem_map.1 ha
      rfl
  rw [Artifact.report, hresolver]

/-- A resolver of code units fails as the first bad unit says. -/
theorem verdict_units (hl : l.isEmbedded) (kind : UnitKind) :
    Traversal.verdict (Composite.unitResolver parts kind l).resolve.result =
      forM (parts.unitQueue kind l) (Artifact.report parts.issued.config l) := by
  rw [UnitResolver.result_resolve rfl, Traversal.verdict_map, Traversal.verdict_mapError,
    UnitResolver.result_migrationsIn, if_pos hl, Traversal.verdict_mapM, unitQueue, List.forM_map,
    Traversal.mapError_forM]
  refine Traversal.forM_congr fun u _ => ?_
  rw [CodeUnit.verdict_migration]
  rfl

/-- In memory the default resolvers fail as the first bad artifact says. -/
theorem verdict_defaultResolvers (hscanner : parts.scanner = given.scanner)
    (hreplacer : Composite.sharedReplacer parts.issued.config = .ok replacer)
    {roots : List Location} (hroots : ∀ l ∈ roots, l.isEmbedded) :
    Traversal.verdict (Traversal.gather (parts.asked parts.issued storage)
        (Composite.defaultResolvers parts replacer roots)) =
      forM (parts.artifacts (given.memory storage) roots) fun a =>
        a.2.report parts.issued.config a.1 := by
  rw [Traversal.verdict_gather, Composite.defaultResolvers, artifacts]
  split
  · rfl
  rw [Traversal.forM_flatMap, Traversal.forM_flatMap]
  refine Traversal.forM_congr fun l hl => ?_
  have hscripts : Traversal.verdict (parts.asked parts.issued storage
      (Composite.scriptResolver parts replacer l).toResolver) =
      forM (parts.scriptQueue (given.memory storage) l)
        (Artifact.report parts.issued.config l) := by
    rw [asked, Composite.result_resolve_scriptResolver hreplacer, Traversal.verdict_map]
    exact verdict_scripts hscanner (hroots l hl)
  have hunits : ∀ kind, Traversal.verdict (parts.asked parts.issued storage
      (Composite.unitResolver parts kind l).toResolver) =
      forM (parts.unitQueue kind l) (Artifact.report parts.issued.config l) :=
    verdict_units (hroots l hl)
  rw [Composite.resolversOf_eq, List.forM_map, List.forM_append, List.forM_append, List.forM_cons,
    List.forM_cons, List.forM_cons, List.forM_nil, hscripts, hunits, hunits, bind_pure, bind_assoc]

theorem forM_report_eq_error_iff {c : Config} {artifacts : List (Location × Artifact)} :
    (forM artifacts fun a => a.2.report c a.1 : Except PlanError Unit) = .error e ↔
      FirstBad c artifacts e := by
  rw [Traversal.forM_eq_error_iff]
  have hgood : ∀ b : Location × Artifact, b.2.report c b.1 = .ok () ↔ b.2.check c = .ok () :=
    fun b => Traversal.mapError_eq_ok_iff
  simp only [hgood]
  constructor
  · rintro ⟨before, ⟨l, a⟩, after, rfl, hbefore, ha⟩
    obtain ⟨cause, hcause, rfl⟩ := Traversal.mapError_eq_error_iff.1 ha
    exact .intro hbefore hcause
  · rintro ⟨hbefore, hcause⟩
    exact ⟨_, _, _, rfl, hbefore, Traversal.mapError_eq_error_iff.2 ⟨_, hcause, rfl⟩⟩

/-! ### Building -/

theorem build_of_check_eq_error (h : parts.issued.config.check.result = .error e) :
    (Composite.build parts).result = .error e := by
  rw [Composite.result_build, h]
  rfl

theorem build_of_not_marksFit (hcheck : parts.issued.config.check.result = .ok ())
    (hlong : ¬ parts.issued.config.MarksFit) :
    (Composite.build parts).result =
      .error (.config "invalid placeholder delimiters: compiled regex exceeded size limit") := by
  obtain ⟨hmarks, roots, hroots⟩ := Config.result_check_eq_ok_iff.1 hcheck
  rw [Composite.result_build, hcheck, hroots,
    Composite.sharedReplacer_of_not_marksFit (Config.checkMarks_eq_ok_iff.1 hmarks) hlong]
  rfl

theorem exists_build_iff (hunnamed : parts.issued.config.resolvers = []) :
    (∃ c, (Composite.build parts).result = .ok c) ↔
      parts.issued.config.check.result = .ok () ∧ parts.issued.config.MarksFit := by
  rw [Config.result_check_eq_ok_iff, and_assoc]
  simp only [Composite.result_build_eq_ok_iff]
  constructor
  · rintro ⟨c, hmarks, roots, replacer, named, hroots, hreplacer, -, -⟩
    exact ⟨hmarks, ⟨roots, hroots⟩,
      (Composite.exists_sharedReplacer_iff (Config.checkMarks_eq_ok_iff.1 hmarks)).1
        ⟨replacer, hreplacer⟩⟩
  · rintro ⟨hmarks, ⟨roots, hroots⟩, hfit⟩
    obtain ⟨replacer, hreplacer⟩ :=
      (Composite.exists_sharedReplacer_iff (Config.checkMarks_eq_ok_iff.1 hmarks)).2 hfit
    refine ⟨_, hmarks, roots, replacer, [], hroots, hreplacer, ?_, rfl⟩
    rw [Composite.namedResolvers, hunnamed]
    rfl

/-- What a composite resolver answers that has the default resolvers only. -/
theorem answer_of_build (hunnamed : parts.issued.config.resolvers = [])
    (hextras : parts.extras = []) {c : Composite} (hc : (Composite.build parts).result = .ok c) :
    ∃ roots replacer, parts.issued.config.roots.result = .ok roots ∧
      Composite.sharedReplacer parts.issued.config = .ok replacer ∧
      ∀ storage, c.answer storage =
        Traversal.gather (parts.asked parts.issued storage)
          (Composite.defaultResolvers parts replacer roots) >>= Plan.ofFound := by
  obtain ⟨-, roots, replacer, named, hroots, hreplacer, hnamed, rfl⟩ :=
    Composite.result_build_eq_ok_iff.1 hc
  refine ⟨roots, replacer, hroots, hreplacer, fun storage => ?_⟩
  rw [Composite.namedResolvers, hunnamed, List.mapM_nil] at hnamed
  obtain rfl := Except.ok.inj hnamed
  rw [Composite.answer_eq_found, Composite.found, hextras, List.append_nil, List.append_nil]
  rfl

/-! ### What goes wrong -/

/-- What a composite resolver of the default resolvers can fail with in a storage, and with what it
fails if all that it looks at is held in memory. -/
structure Fails (parts : CompositeParts) (given : GivenScanner) (roots : List Location)
    (storage : Storage) (answer : Except PlanError Plan) : Prop where
  /-- Migrations are in conflict, or something is wrong in a root. -/
  kinds : ∀ e, answer = .error e → parts.Failure roots e
  /-- In memory the first bad artifact decides. -/
  inMemory : (∀ l ∈ roots, l.isEmbedded) → ∀ e, e.isConflict = false →
    (answer = .error e ↔
      FirstBad parts.issued.config (parts.artifacts (given.memory storage) roots) e)
  /-- The scripts of one kind are looked at by path. -/
  byPath : ∀ l repeatable, (parts.issued.config.scanned ⟨{}, given.memory storage⟩ l
    repeatable).Pairwise fun a b => a.1 < b.1

/-- A conflict is all that a plan can fail with. -/
theorem isConflict_of_ofFound {found : List Migration} (h : Plan.ofFound found = .error e) :
    e.isConflict := by
  obtain ⟨a, b, -, rfl⟩ := Plan.exists_leastConflict_of_ofFound h
  unfold Plan.conflict
  split <;> rfl

/-- **What goes wrong with the default resolvers**: building fails with the error of the check, or
because the marks around placeholders are too long, and what the composite resolver then fails with
is a conflict or a fault of one artifact, wrapped once; in memory it is that of the first bad one.
-/
theorem fails_of_default (hunnamed : parts.issued.config.resolvers = []) :
    ((∃ c, (Composite.build parts).result = .ok c) ↔
        parts.issued.config.check.result = .ok () ∧ parts.issued.config.MarksFit) ∧
      (∀ e, parts.issued.config.check.result = .error e →
        (Composite.build parts).result = .error e) ∧
      (parts.issued.config.check.result = .ok () → ¬ parts.issued.config.MarksFit →
        (Composite.build parts).result =
          .error (.config "invalid placeholder delimiters: compiled regex exceeded size limit")) ∧
      ∀ given : GivenScanner, parts.scanner = given.scanner → parts.extras = [] →
        ∀ c, (Composite.build parts).result = .ok c →
          ∃ roots, parts.issued.config.roots.result = .ok roots ∧
            ∀ storage, parts.Fails given roots storage (c.answer storage) := by
  refine ⟨exists_build_iff hunnamed, fun _ => build_of_check_eq_error, build_of_not_marksFit, ?_⟩
  intro given hscanner hextras c hc
  obtain ⟨roots, replacer, hroots, hreplacer, hanswer⟩ := answer_of_build hunnamed hextras hc
  refine ⟨roots, hroots, fun storage => ⟨fun e he => ?_, fun hmemory e he => ?_, ?_⟩⟩
  · rw [hanswer] at he
    rcases Traversal.bind_eq_error_iff.1 he with hfound | ⟨found, -, hplan⟩
    · exact failure_of_defaultResolvers hscanner hreplacer hfound
    · exact failure_of_ofFound hplan
  · rw [hanswer, ← forM_report_eq_error_iff, ← verdict_defaultResolvers hscanner hreplacer hmemory,
      Traversal.verdict_eq_error_iff, Traversal.bind_eq_error_iff]
    refine or_iff_left ?_
    rintro ⟨found, -, hplan⟩
    rw [isConflict_of_ofFound hplan] at he
    cases he
  · exact fun l repeatable => Config.pairwise_scanned _ l repeatable

/-- Parts with a code unit that says that it has a blank description. -/
def blankUnit : CompositeParts where
  issued := ⟨1, { Config.standard with locations := ["embedded:db"] }⟩
  scanner := .embedded
  units.code :=
    [{ package := ⟨.embedded, "db"⟩, name := "V2__Fill", scripts := [],
       title := some ⟨some ⟨["2"], "2"⟩, " "⟩, origin := "Fill" }]

/-- A storage with a script in memory. -/
def besideBlankUnit : Storage where
  embedded := ({} : Bundle).add "db/V1__Users.sql" [49]

theorem fails_of_default_blankUnit :
    blankUnit.issued.config.resolvers = [] ∧
      ∃ c, (Composite.build blankUnit).result = .ok c ∧
        c.answer besideBlankUnit =
          .error (.resolver "code" "embedded:db" (.missingDescription "2")) := by
  have hunnamed : blankUnit.issued.config.resolvers = [] := rfl
  obtain ⟨hbuild, -, -, hfails⟩ := fails_of_default hunnamed
  obtain ⟨c, hc⟩ := hbuild.2 ⟨by rfl, fun _ => by decide⟩
  refine ⟨hunnamed, c, hc, ?_⟩
  obtain ⟨roots, hroots, hfails⟩ := hfails .embedded rfl rfl c hc
  have hdb : blankUnit.issued.config.roots.result = .ok [⟨.embedded, "db"⟩] := by rfl
  rw [hdb] at hroots
  cases hroots
  refine ((hfails besideBlankUnit).inMemory (by decide) _ rfl).2 ?_
  have hartifacts : blankUnit.artifacts (GivenScanner.embedded.memory besideBlankUnit)
      [⟨.embedded, "db"⟩] =
      [(⟨.embedded, "db"⟩, .script false ("db/V1__Users.sql", [49]))] ++
        (⟨.embedded, "db"⟩, .unit .code
          { package := ⟨.embedded, "db"⟩, name := "V2__Fill", scripts := [],
            title := some ⟨some ⟨["2"], "2"⟩, " "⟩, origin := "Fill" }) :: [] := by rfl
  rw [hartifacts]
  exact .intro (List.forall_mem_singleton.2 rfl) rfl

/-- Parts with an opening mark that is too long. -/
def overlongMark : CompositeParts where
  issued := ⟨1, { Config.standard with
    placeholderOpening := String.ofList (List.replicate 400000 'x') }⟩

theorem length_opening_overlongMark :
    overlongMark.issued.config.placeholderOpening.length = 400000 := by
  show (String.ofList (List.replicate 400000 'x')).length = 400000
  rw [String.length_ofList, List.length_replicate]

theorem check_overlongMark : overlongMark.issued.config.check.result = .ok () := by
  have hopening : overlongMark.issued.config.placeholderOpening ≠ "" := by
    intro hempty
    have hlength := length_opening_overlongMark
    rw [hempty] at hlength
    cases hlength
  have hmarked : overlongMark.issued.config.Marked :=
    { versioned := by decide
      repeatable := by decide
      separator := by decide
      differ := by decide
      placeholders := fun _ => ⟨hopening, by decide⟩ }
  exact Config.result_check_eq_ok_iff.2 ⟨Config.checkMarks_eq_ok_iff.2 hmarked, _, rfl⟩

theorem not_marksFit_overlongMark : ¬ overlongMark.issued.config.MarksFit := by
  intro hfit
  have hsize := hfit rfl
  rw [Replacer.automatonSize, length_opening_overlongMark] at hsize
  exact absurd hsize (by decide)

/-- The check lets marks pass that are too long, but nothing can be built with them. -/
theorem not_fails_of_default_overlongMark :
    ¬ ∀ parts : CompositeParts, parts.issued.config.resolvers = [] →
      ((∃ c, (Composite.build parts).result = .ok c) ↔
        parts.issued.config.check.result = .ok ()) := by
  intro hall
  exact not_marksFit_overlongMark
    ((exists_build_iff rfl).1 ((hall overlongMark rfl).2 check_overlongMark)).2

end CompositeParts

end SchemaPlan
