import SchemaPlan.Proofs.Config
import SchemaPlan.Proofs.Migration.Draft
import SchemaPlan.Resolver.Sql

/-!
# What a resolver of scripts finds

A resolver of scripts finds, in each of its locations, the migrations of all scanned resources that
are no callbacks, the versioned ones first (`result_migrationsIn`). A resolver that is bound to a
location sorts what it finds there; one that is not puts together what it finds in all roots, and
sorts that.
-/

namespace SchemaPlan

/-! ### Texts and checksums -/

/-- A resource holds a text if its bytes encode one. -/
theorem Resource.exists_text {files : FileTree} {resource : Resource} {bytes : List UInt8}
    (hbytes : resource.bytes files = .ok bytes) (htext : ∃ text, Text.decodeText bytes = .ok text) :
    ∃ text, resource.text files = .ok text := by
  obtain ⟨text, htext⟩ := htext
  refine ⟨withoutMark text, ?_⟩
  simp only [Resource.text, bind, Except.bind, hbytes, htext]
  rfl

namespace ChecksumPolicy

variable {policy : ChecksumPolicy} {files : FileTree} {resource : Resource}

/-- The checksum of a content; by the policies on lines there is one of a text only. -/
def contentChecksum? : ChecksumPolicy → List UInt8 → Option Int32
  | rawBytes, bytes => some (checksumOfBytes bytes)
  | policy, bytes =>
    (Text.decodeText bytes).toOption.map fun text => policy.textChecksum (Resource.withoutMark text)

/-- The checksum of a resource is that of its content. -/
theorem resourceChecksum_eq_ok_iff {sum : Int32} :
    policy.resourceChecksum files resource = .ok sum ↔
      ∃ bytes, resource.bytes files = .ok bytes ∧ policy.contentChecksum? bytes = some sum := by
  unfold resourceChecksum contentChecksum? Resource.text
  cases resource.bytes files with
  | error e => cases policy <;> exact iff_of_false nofun nofun
  | ok bytes =>
    cases hdecode : Text.decodeText bytes <;> cases policy <;>
      simp [hdecode, bind, Except.bind, Except.map, Except.toOption, pure, Except.pure]

/-- What holds text has a checksum by every policy. -/
theorem exists_resourceChecksum (h : ∃ text, resource.text files = .ok text)
    (policy : ChecksumPolicy) : ∃ sum, policy.resourceChecksum files resource = .ok sum := by
  obtain ⟨text, htext⟩ := h
  obtain ⟨bytes, hbytes, -⟩ := Traversal.bind_eq_ok_iff.1 htext
  unfold resourceChecksum
  rw [htext, hbytes]
  cases policy <;> exact ⟨_, rfl⟩

/-- What cannot be read has no checksum by any policy. -/
theorem resourceChecksum_of_bytes_eq_error {e : PlanError} (h : resource.bytes files = .error e) :
    policy.resourceChecksum files resource = .error e := by
  unfold resourceChecksum Resource.text
  rw [h]
  cases policy <;> rfl

/-- A resource has no checksum if it cannot be read, or if it is no text and the policy is on lines.
-/
theorem of_resourceChecksum_eq_error {e : PlanError}
    (h : policy.resourceChecksum files resource = .error e) :
    resource.bytes files = .error e ∨
      policy ≠ .rawBytes ∧ ∃ reason, e = .content resource.physicalLocation reason := by
  unfold resourceChecksum Resource.text at h
  cases hbytes : resource.bytes files with
  | error e' =>
    rw [hbytes] at h
    cases policy <;> (cases h; exact .inl rfl)
  | ok bytes =>
    rw [hbytes] at h
    cases hdecode : Text.decodeText bytes <;> cases policy <;>
      simp [hdecode, bind, Except.bind, Except.map, pure, Except.pure, throw, throwThe,
        MonadExceptOf.throw] at h
    all_goals exact .inr ⟨by decide, _, h.symm⟩

end ChecksumPolicy

namespace SqlResolver

variable (r : SqlResolver) (storage : Storage) (replacer : Option Replacer) (l : Location)

/-! ### Migrations of scripts -/

/-- What the migration of a script is made of. -/
theorem migration_eq_ok_iff {r : SqlResolver} {files : FileTree} {replacer : Option Replacer}
    {scheme : NameScheme} {repeatable : Bool} {resource : Resource} {m : Migration} :
    r.migration files replacer scheme repeatable resource = .ok m ↔
      ∃ title checksum executor, r.readName resource scheme repeatable = .ok title ∧
        r.checksumPolicy.resourceChecksum files resource = .ok checksum ∧
        r.makeExecutor resource r.issued.config replacer = .ok executor ∧
        Text.allBlank title.description = false ∧
        m = ⟨title.version, title.description, resource.path, some checksum, .sql,
          resource.physicalLocation, executor⟩ := by
  unfold migration
  simp only [Traversal.bind_eq_ok_iff, Migration.Draft.complete_eq]
  constructor
  · rintro ⟨title, htitle, checksum, hchecksum, executor, hexecutor, hm⟩
    split at hm
    · cases hm
    · next hblank =>
      cases hm
      exact ⟨title, checksum, executor, htitle, hchecksum, hexecutor, Bool.eq_false_iff.2 hblank,
        rfl⟩
  · rintro ⟨title, checksum, executor, htitle, hchecksum, hexecutor, hblank, rfl⟩
    exact ⟨title, htitle, checksum, hchecksum, executor, hexecutor, by rw [hblank]; rfl⟩

/-- The standard executor of a script can always be made. -/
theorem migration_of_standard {r : SqlResolver} (hmake : r.makeExecutor = .standard)
    (files : FileTree) (replacer : Option Replacer) (scheme : NameScheme) (repeatable : Bool)
    (resource : Resource) :
    r.migration files replacer scheme repeatable resource =
      r.readName resource scheme repeatable >>= fun title =>
        r.checksumPolicy.resourceChecksum files resource >>= fun checksum =>
          if Text.allBlank title.description then
            .error (.missingDescription ((title.version.map Version.text).getD title.description))
          else .ok ⟨title.version, title.description, resource.path, some checksum, .sql,
            resource.physicalLocation, .script resource replacer⟩ := by
  unfold migration
  rw [hmake]
  refine bind_congr fun title => bind_congr fun checksum => ?_
  exact Migration.Draft.complete_eq _ _ _ _ _ _ _

/-- A script that holds text has a migration with the title that its name says. -/
theorem exists_migration_of_read {r : SqlResolver} (hread : r.readName = .byFilename)
    (hmake : r.makeExecutor = .standard) {files : FileTree} {scheme : NameScheme}
    {repeatable : Bool} {resource : Resource} {title : Title}
    (htitle : scheme.read resource.filename repeatable = .ok title)
    (htext : ∃ text, resource.text files = .ok text) (replacer : Option Replacer) :
    ∃ m, r.migration files replacer scheme repeatable resource = .ok m ∧
      m.version = title.version ∧ m.description = title.description ∧ m.kind = .sql ∧
      m.physicalLocation = resource.physicalLocation := by
  obtain ⟨sum, hsum⟩ := ChecksumPolicy.exists_resourceChecksum htext r.checksumPolicy
  have hname : r.readName resource scheme repeatable = .ok title := by
    rw [hread]
    exact htitle
  have hexecutor : r.makeExecutor resource r.issued.config replacer =
      .ok (.script resource replacer) := by
    rw [hmake]
    rfl
  exact ⟨_, migration_eq_ok_iff.2 ⟨title, sum, _, hname, hsum, hexecutor,
    NameScheme.allBlank_of_read htitle, rfl⟩, rfl, rfl, rfl, rfl⟩

/-- All that can be wrong with a script are its name and its content. -/
theorem verdict_migration {r : SqlResolver} (hread : r.readName = .byFilename)
    (hmake : r.makeExecutor = .standard) (files : FileTree) (replacer : Option Replacer)
    (scheme : NameScheme) (repeatable : Bool) (resource : Resource) :
    Traversal.verdict (r.migration files replacer scheme repeatable resource) =
      scheme.read resource.filename repeatable >>= fun _ =>
        Traversal.verdict (r.checksumPolicy.resourceChecksum files resource) := by
  unfold migration
  rw [hread, hmake]
  show Traversal.verdict (scheme.read resource.filename repeatable >>= _) = _
  cases htitle : scheme.read resource.filename repeatable with
  | error e => rfl
  | ok title =>
    show Traversal.verdict (r.checksumPolicy.resourceChecksum files resource >>= _) =
      Traversal.verdict (r.checksumPolicy.resourceChecksum files resource)
    cases r.checksumPolicy.resourceChecksum files resource with
    | error e => rfl
    | ok checksum =>
      show Traversal.verdict (Migration.Draft.complete _) = _
      rw [Migration.Draft.complete_eq, NameScheme.allBlank_of_read htitle,
        if_neg Bool.false_ne_true]
      rfl

/-! ### Scripts of a location -/

/-- The resources of a scan that are no callbacks. -/
def scripts (scheme : NameScheme) (resources : List Resource) : List Resource :=
  resources.filter fun resource => !isCallbackName resource.filename scheme.suffix

theorem mem_scripts_iff {scheme : NameScheme} {resources : List Resource} {resource : Resource} :
    resource ∈ scripts scheme resources ↔
      resource ∈ resources ∧ isCallbackName resource.filename scheme.suffix = false := by
  simp [scripts]

theorem result_visit (files : FileTree) (scheme : NameScheme) (repeatable : Bool)
    (resource : Resource) :
    (r.visit files replacer scheme repeatable resource).result =
      if isCallbackName resource.filename scheme.suffix then .ok none
      else (r.migration files replacer scheme repeatable resource).map some := by
  unfold visit
  split
  · rfl
  · simp only [ResolveM.result_bind, ResolveM.result_ofExcept]
    cases r.migration files replacer scheme repeatable resource <;> rfl

/-- By one name scheme the migrations of all scripts are found, in the order of the scan. -/
theorem result_migrationsNamed (scheme : NameScheme) (repeatable : Bool) :
    (r.migrationsNamed storage replacer l scheme repeatable).result =
      (r.scanner.scan storage l scheme.marker scheme.suffix).result >>= fun resources =>
        (scripts scheme resources).mapM
          (r.migration storage.files replacer scheme repeatable) := by
  unfold migrationsNamed scripts
  rw [ResolveM.result_bind]
  cases (r.scanner.scan storage l scheme.marker scheme.suffix).result with
  | error e => rfl
  | ok resources =>
    refine Eq.trans ?_ (Traversal.map_filterMap_mapM _ _ resources)
    show ((resources.mapM _) >>= _ : ResolveM _).result = _
    rw [ResolveM.result_bind, ResolveM.result_mapM]
    simp only [result_visit]
    generalize (resources.mapM _ : Except PlanError (List (Option Migration))) = visited
    cases visited <;> rfl

/-- In one location the versioned migrations are found first, then the repeatable ones. -/
theorem result_migrationsIn :
    (r.migrationsIn storage replacer l).result = do
      let versioned ←
        (r.migrationsNamed storage replacer l r.issued.config.versionedScheme false).result
      let repeatable ←
        (r.migrationsNamed storage replacer l r.issued.config.repeatableScheme true).result
      return versioned ++ repeatable := by
  unfold migrationsIn
  simp only [ResolveM.result_bind, ResolveM.result_pure]
  rfl

/-- In one location what is found is what the two kinds of scripts give. -/
theorem result_migrationsIn_eq_gather :
    (r.migrationsIn storage replacer l).result =
      Traversal.gather (fun repeatable => (r.migrationsNamed storage replacer l
        (r.issued.config.scheme repeatable) repeatable).result) [false, true] := by
  rw [result_migrationsIn, Traversal.gather_cons, Traversal.gather_cons, Traversal.gather_nil]
  refine bind_congr fun versioned => ?_
  show _ = Except.map _ ((r.migrationsNamed storage replacer l
    r.issued.config.repeatableScheme true).result >>= _)
  cases (r.migrationsNamed storage replacer l r.issued.config.repeatableScheme true).result with
  | error e => rfl
  | ok repeatable =>
    exact congrArg (fun ms => Except.ok (versioned ++ ms)) (List.append_nil repeatable).symm

/-- What is found in one location, with the location named in an error. -/
def foundIn : Except PlanError (List Migration) :=
  (r.migrationsIn storage replacer l).result.mapError (.resolver name l.display)

variable {r storage replacer l}

theorem foundIn_eq_ok_iff {found : List Migration} :
    r.foundIn storage replacer l = .ok found ↔
      ∃ versioned repeatable,
        (r.migrationsNamed storage replacer l r.issued.config.versionedScheme false).result =
          .ok versioned ∧
        (r.migrationsNamed storage replacer l r.issued.config.repeatableScheme true).result =
          .ok repeatable ∧ versioned ++ repeatable = found := by
  rw [foundIn, Traversal.mapError_eq_ok_iff, result_migrationsIn]
  simp only [Traversal.bind_eq_ok_iff, pure, Except.pure, Except.ok.injEq, exists_and_left]

/-- Something is found for one kind if the location can be scanned for it and each script has a
migration. -/
theorem exists_migrationsNamed_iff {scheme : NameScheme} {repeatable : Bool} :
    (∃ ms, (r.migrationsNamed storage replacer l scheme repeatable).result = .ok ms) ↔
      ∃ resources, (r.scanner.scan storage l scheme.marker scheme.suffix).result = .ok resources ∧
        ∀ resource ∈ scripts scheme resources,
          ∃ m, r.migration storage.files replacer scheme repeatable resource = .ok m := by
  simp only [result_migrationsNamed, Traversal.bind_eq_ok_iff, ← Traversal.exists_mapM_eq_ok_iff]
  exact ⟨fun ⟨ms, resources, hscan, hms⟩ => ⟨resources, hscan, ms, hms⟩,
    fun ⟨resources, hscan, ms, hms⟩ => ⟨ms, resources, hscan, hms⟩⟩

/-- Something is found in a location if it is found for both kinds. -/
theorem exists_foundIn_iff :
    (∃ found, r.foundIn storage replacer l = .ok found) ↔ ∀ repeatable, ∃ resources,
      (r.scanner.scan storage l (r.issued.config.scheme repeatable).marker
        (r.issued.config.scheme repeatable).suffix).result = .ok resources ∧
      ∀ resource ∈ scripts (r.issued.config.scheme repeatable) resources,
        ∃ m, r.migration storage.files replacer (r.issued.config.scheme repeatable) repeatable
          resource = .ok m := by
  simp only [← exists_migrationsNamed_iff, Bool.forall_bool, foundIn_eq_ok_iff]
  constructor
  · rintro ⟨_, versioned, repeatable, hversioned, hrepeatable, -⟩
    exact ⟨⟨versioned, hversioned⟩, repeatable, hrepeatable⟩
  · rintro ⟨⟨versioned, hversioned⟩, repeatable, hrepeatable⟩
    exact ⟨_, versioned, repeatable, hversioned, hrepeatable, rfl⟩

/-- What is found are the migrations of all scripts of both scans. -/
theorem mem_foundIn_iff_migration {found : List Migration}
    (h : r.foundIn storage replacer l = .ok found) {m : Migration} :
    m ∈ found ↔ ∃ repeatable resources,
      (r.scanner.scan storage l (r.issued.config.scheme repeatable).marker
        (r.issued.config.scheme repeatable).suffix).result = .ok resources ∧
      ∃ resource ∈ scripts (r.issued.config.scheme repeatable) resources,
        r.migration storage.files replacer (r.issued.config.scheme repeatable) repeatable
          resource = .ok m := by
  have hnamed : ∀ {repeatable : Bool} {ms : List Migration},
      (r.migrationsNamed storage replacer l (r.issued.config.scheme repeatable)
        repeatable).result = .ok ms → (m ∈ ms ↔ ∃ resources,
          (r.scanner.scan storage l (r.issued.config.scheme repeatable).marker
            (r.issued.config.scheme repeatable).suffix).result = .ok resources ∧
          ∃ resource ∈ scripts (r.issued.config.scheme repeatable) resources,
            r.migration storage.files replacer (r.issued.config.scheme repeatable) repeatable
              resource = .ok m) := by
    intro repeatable ms hms
    rw [result_migrationsNamed, Traversal.bind_eq_ok_iff] at hms
    obtain ⟨resources, hscan, hms⟩ := hms
    rw [Traversal.mem_of_mapM_eq_ok hms, hscan]
    simp only [Except.ok.injEq, exists_eq_left']
  obtain ⟨versioned, repeatable, hversioned, hrepeatable, rfl⟩ := foundIn_eq_ok_iff.1 h
  rw [List.mem_append, Bool.exists_bool]
  exact or_congr (hnamed hversioned) (hnamed hrepeatable)

/-- A resolver finds the same in two storages with the same files if it has the same scripts to go
by. -/
theorem foundIn_congr {storage' : Storage} (hfiles : storage'.files = storage.files)
    (hscripts : ∀ repeatable,
      (r.scanner.scan storage' l (r.issued.config.scheme repeatable).marker
          (r.issued.config.scheme repeatable).suffix).result.map
            (scripts (r.issued.config.scheme repeatable)) =
        (r.scanner.scan storage l (r.issued.config.scheme repeatable).marker
          (r.issued.config.scheme repeatable).suffix).result.map
            (scripts (r.issued.config.scheme repeatable))) :
    r.foundIn storage' replacer l = r.foundIn storage replacer l := by
  have hnamed : ∀ repeatable : Bool,
      (r.migrationsNamed storage' replacer l (r.issued.config.scheme repeatable)
        repeatable).result =
      (r.migrationsNamed storage replacer l (r.issued.config.scheme repeatable)
        repeatable).result := by
    intro repeatable
    have hbind : ∀ (x : Except PlanError (List Resource))
        (f : Resource → Except PlanError Migration),
        (x >>= fun resources =>
          (scripts (r.issued.config.scheme repeatable) resources).mapM f) =
        x.map (scripts (r.issued.config.scheme repeatable)) >>= fun found => found.mapM f :=
      fun x f => by cases x <;> rfl
    rw [result_migrationsNamed, result_migrationsNamed, hbind, hbind, hscripts, hfiles]
  rw [foundIn, foundIn, result_migrationsIn_eq_gather, result_migrationsIn_eq_gather]
  exact congrArg _ (Traversal.gather_congr fun repeatable _ => hnamed repeatable)

/-- What goes wrong in one location is reported with the location. -/
theorem foundIn_eq_error_iff {e : PlanError} :
    r.foundIn storage replacer l = .error e ↔
      ∃ cause, (r.migrationsIn storage replacer l).result = .error cause ∧
        .resolver name l.display cause = e :=
  Traversal.mapError_eq_error_iff

/-- What is found comes from the resources of a scan of the location for one kind of scripts. -/
theorem exists_of_mem_foundIn {found : List Migration}
    (h : r.foundIn storage replacer l = .ok found)
    {m : Migration} (hm : m ∈ found) :
    ∃ (repeatable : Bool) (resources : List Resource),
      (r.scanner.scan storage l (r.issued.config.scheme repeatable).marker
          (r.issued.config.scheme repeatable).suffix).result = .ok resources ∧
        ∃ resource ∈ resources, r.migration storage.files replacer
          (r.issued.config.scheme repeatable) repeatable resource = .ok m := by
  obtain ⟨repeatable, resources, hscan, resource, hresource, hmigration⟩ :=
    (mem_foundIn_iff_migration h).1 hm
  exact ⟨repeatable, resources, hscan, resource, (List.mem_filter.1 hresource).1, hmigration⟩

variable (r storage)

/-- What is found in all locations, in the order in which it is found. -/
def foundInScope : Except PlanError (List Migration) :=
  r.activeReplacer >>= fun replacer =>
    (r.issued.config.scope r.location?).result >>= fun ls =>
      Traversal.gather (r.foundIn storage replacer) ls

/-- A resolver gives what it finds in all locations together, sorted. -/
theorem result_resolve_eq :
    (r.resolve storage).result = (r.foundInScope storage).map Migration.sort := by
  unfold resolve foundInScope
  simp only [ResolveM.result_bind, ResolveM.result_ofExcept, ResolveM.result_pure,
    ResolveM.result_mapM, ResolveM.result_mapError]
  cases r.activeReplacer with
  | error e => rfl
  | ok replacer =>
    cases (r.issued.config.scope r.location?).result with
    | error e => rfl
    | ok ls =>
      show ls.mapM (r.foundIn storage replacer) >>= _ =
        (Traversal.gather (r.foundIn storage replacer) ls).map Migration.sort
      unfold Traversal.gather
      cases ls.mapM (r.foundIn storage replacer) <;> rfl

/-- A resolver that is bound to a location sorts what it finds there. -/
theorem result_resolve_of_bound (h : r.location? = some l) :
    (r.resolve storage).result =
      r.activeReplacer >>= fun replacer => (r.foundIn storage replacer l).map Migration.sort := by
  rw [result_resolve_eq, foundInScope, h]
  cases r.activeReplacer with
  | error e => rfl
  | ok replacer =>
    exact congrArg (Except.map Migration.sort) (Traversal.gather_singleton _ l)

/-- A resolver that is not bound sorts what it finds in all roots together. -/
theorem result_resolve_of_unbound (h : r.location? = none) :
    (r.resolve storage).result =
      r.activeReplacer >>= fun replacer =>
        r.issued.config.roots.result >>= fun ls =>
          (Traversal.gather (r.foundIn storage replacer) ls).map Migration.sort := by
  rw [result_resolve_eq, foundInScope, h]
  cases r.activeReplacer with
  | error e => rfl
  | ok replacer =>
    show Except.map _ (r.issued.config.roots.result >>= _) = r.issued.config.roots.result >>= _
    cases r.issued.config.roots.result <;> rfl

/-! ### Configurations -/

/-- Handed the configuration that is in force already, a resolver does what it does anyway. -/
theorem resolve_toResolver {r : SqlResolver} {settings : Settings} (h : settings.issued = r.issued)
    (storage : Storage) : r.toResolver.resolve settings storage = r.resolve storage := by
  show (r.configure settings.issued).resolve storage = _
  rw [h, configure, if_pos rfl]

end SqlResolver

end SchemaPlan
