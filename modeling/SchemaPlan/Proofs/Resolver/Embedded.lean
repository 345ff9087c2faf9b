import SchemaPlan.Proofs.NameScheme
import SchemaPlan.Proofs.Resolver.Sql
import SchemaPlan.Proofs.Storage.Scanner

/-!
# Scripts that are held in memory

For each kind of scripts an embedded location is scanned by one name scheme. What a resolver finds
there are the migrations of all scanned scripts that are no callbacks (`foundIn_eq_ok_iff_scanned`),
and the place that a migration was found at tells the path of its script.
-/

namespace SchemaPlan

namespace Config

/-- Whether a path is that of a script of one kind that is no callback. -/
def wants (c : Config) (repeatable : Bool) (path : String) : Bool :=
  (c.scheme repeatable).covers (lastSegment path) && !isCallbackName (lastSegment path) c.suffix

theorem wants_base_append (c : Config) (repeatable : Bool) (l : Location) (path : String) :
    c.wants repeatable (Bundle.base l ++ path) = c.wants repeatable path := by
  rw [wants, wants, Bundle.lastSegment_base_append]

/-- The scripts below a location that are scanned for one kind, without the callbacks. -/
def scanned (c : Config) (storage : Storage) (l : Location) (repeatable : Bool) :
    List (String × List UInt8) :=
  (storage.embedded.below l).filter fun script => c.wants repeatable script.1

/-- The scripts of one kind are scanned by path. -/
theorem pairwise_scanned {c : Config} (storage : Storage) (l : Location) (repeatable : Bool) :
    (c.scanned storage l repeatable).Pairwise fun a b => a.1 < b.1 :=
  storage.embedded.entries.ascending.sublist (List.filter_sublist.trans List.filter_sublist)

end Config

/-- The place of what is held in memory under a path. -/
def placeInMemory (script : String × List UInt8) : String := Medium.embedded.scheme ++ script.1

/-- Whether a migration runs a script that is held in memory. -/
def Migration.fromMemory (m : Migration) : Bool :=
  match m.executor with
  | .script ⟨_, _, .memory _⟩ _ => true
  | _ => false

namespace SqlResolver

variable {r : SqlResolver} {storage : Storage} {replacer : Option Replacer} {l : Location}
  {repeatable : Bool}

/-- The migration of a script that is held in memory, as one of one kind. -/
def migrationOf (r : SqlResolver) (storage : Storage) (replacer : Option Replacer) (l : Location)
    (repeatable : Bool) (script : String × List UInt8) : Except PlanError Migration :=
  r.migration storage.files replacer (r.issued.config.scheme repeatable) repeatable
    (Bundle.resource (Bundle.base l) script)

theorem scripts_found (c : Config) (storage : Storage) (l : Location) (repeatable : Bool) :
    scripts (c.scheme repeatable)
        (storage.embedded.found l (c.scheme repeatable).marker (c.scheme repeatable).suffix) =
      (c.scanned storage l repeatable).map (Bundle.resource (Bundle.base l)) := by
  rw [scripts, Bundle.found_eq, List.filter_map, List.filter_filter, Config.scanned]
  refine congrArg _ (List.filter_congr fun script hscript => ?_)
  rw [Function.comp, Bundle.filename_resource (Bundle.mem_below_iff.1 hscript).2, Config.wants,
    NameScheme.covers, Config.suffix_scheme, Bool.and_comm]

/-- For one kind the migrations of what is scanned for it are found. -/
theorem result_migrationsNamed_eq_ok_iff (hscanner : r.scanner.ReadsBundle) (hl : l.isEmbedded)
    {ms : List Migration} :
    (r.migrationsNamed storage replacer l (r.issued.config.scheme repeatable) repeatable).result =
        .ok ms ↔
      List.Forall₂ (fun script m => r.migrationOf storage replacer l repeatable script = .ok m)
        (r.issued.config.scanned storage l repeatable) ms := by
  rw [result_migrationsNamed, hscanner.embedded storage _ _ hl]
  show List.mapM _ (scripts (r.issued.config.scheme repeatable) (storage.embedded.found l
    (r.issued.config.scheme repeatable).marker (r.issued.config.scheme repeatable).suffix)) = _ ↔ _
  rw [scripts_found, Traversal.mapM_eq_ok_iff, List.forall₂_map_left_iff]
  rfl

/-- In an embedded location the migrations of what is scanned for each kind are found. -/
theorem foundIn_eq_ok_iff_scanned (hscanner : r.scanner.ReadsBundle) (hl : l.isEmbedded)
    {found : List Migration} :
    r.foundIn storage replacer l = .ok found ↔
      ∃ ms : Bool → List Migration,
        (∀ repeatable, List.Forall₂ (fun script m =>
          r.migrationOf storage replacer l repeatable script = .ok m)
          (r.issued.config.scanned storage l repeatable) (ms repeatable)) ∧
        ms false ++ ms true = found := by
  rw [foundIn_eq_ok_iff]
  constructor
  · rintro ⟨versioned, repeatable, hversioned, hrepeatable, rfl⟩
    refine ⟨fun b => cond b repeatable versioned, ?_, rfl⟩
    rw [Bool.forall_bool]
    exact ⟨(result_migrationsNamed_eq_ok_iff hscanner hl).1 hversioned,
      (result_migrationsNamed_eq_ok_iff hscanner hl).1 hrepeatable⟩
  · rintro ⟨ms, hms, rfl⟩
    have hversioned := (result_migrationsNamed_eq_ok_iff hscanner hl).2 (hms false)
    have hrepeatable := (result_migrationsNamed_eq_ok_iff hscanner hl).2 (hms true)
    exact ⟨_, _, hversioned, hrepeatable, rfl⟩

/-- In an embedded location what is found are the migrations of what is scanned. -/
theorem mem_foundIn_iff (hscanner : r.scanner.ReadsBundle) (hl : l.isEmbedded)
    {found : List Migration} (h : r.foundIn storage replacer l = .ok found) {m : Migration} :
    m ∈ found ↔ ∃ repeatable, ∃ script ∈ r.issued.config.scanned storage l repeatable,
      r.migrationOf storage replacer l repeatable script = .ok m := by
  obtain ⟨ms, hms, rfl⟩ := (foundIn_eq_ok_iff_scanned hscanner hl).1 h
  have hmem : ∀ repeatable, m ∈ ms repeatable ↔
      ∃ script ∈ r.issued.config.scanned storage l repeatable,
        r.migrationOf storage replacer l repeatable script = .ok m := fun repeatable =>
    Traversal.mem_of_mapM_eq_ok (Traversal.mapM_eq_ok_iff.2 (hms repeatable))
  rw [List.mem_append, Bool.exists_bool, hmem, hmem]

/-- Where something is found, each scanned script has a migration. -/
theorem exists_of_mem_scanned (hscanner : r.scanner.ReadsBundle) (hl : l.isEmbedded)
    {found : List Migration} (h : r.foundIn storage replacer l = .ok found)
    {script : String × List UInt8}
    (hscript : script ∈ r.issued.config.scanned storage l repeatable) :
    ∃ m, r.migrationOf storage replacer l repeatable script = .ok m := by
  obtain ⟨ms, hms, -⟩ := (foundIn_eq_ok_iff_scanned hscanner hl).1 h
  exact Traversal.exists_mapM_eq_ok_iff.1 ⟨_, Traversal.mapM_eq_ok_iff.2 (hms repeatable)⟩ _ hscript

/-- Migrations are found at the places of their scripts. -/
theorem places_of_migrationOf {xs : List (String × List UInt8)} {ms : List Migration}
    (h : List.Forall₂ (fun script m => r.migrationOf storage replacer l repeatable script = .ok m)
      xs ms) : ms.map Migration.physicalLocation = xs.map placeInMemory := by
  refine (Traversal.map_eq_map_of_forall₂ h fun script m hm => ?_).symm
  obtain ⟨-, -, -, -, -, -, -, rfl⟩ := migration_eq_ok_iff.1 hm
  rfl

theorem kind_of_mem_foundIn {found : List Migration} (h : r.foundIn storage replacer l = .ok found) :
    ∀ m ∈ found, m.kind = .sql := by
  intro m hm
  obtain ⟨_, _, -, _, -, hmigration⟩ := exists_of_mem_foundIn h hm
  obtain ⟨-, -, -, -, -, -, -, rfl⟩ := migration_eq_ok_iff.1 hmigration
  rfl

/-- A migration of a script in memory says that it is one, and of which kind. -/
theorem of_migrationOf (hread : r.readName = .byFilename) (hmake : r.makeExecutor = .standard)
    {script : String × List UInt8} {m : Migration}
    (h : r.migrationOf storage replacer l repeatable script = .ok m) :
    m.fromMemory = true ∧ m.isRepeatable = repeatable := by
  obtain ⟨title, checksum, executor, htitle, -, hexecutor, -, rfl⟩ := migration_eq_ok_iff.1 h
  rw [hread] at htitle
  rw [hmake] at hexecutor
  cases hexecutor
  exact ⟨rfl, NameScheme.isNone_version_of_read htitle⟩

/-- Outside of the embedded locations no script is found in memory. -/
theorem fromMemory_of_mem_foundIn (hscanner : r.scanner.ReadsBundle)
    (hmake : r.makeExecutor = .standard) (hl : l.isEmbedded = false) {found : List Migration}
    (h : r.foundIn storage replacer l = .ok found) : ∀ m ∈ found, m.fromMemory = false := by
  intro m hm
  obtain ⟨_, resources, hscan, resource, hresource, hmigration⟩ := exists_of_mem_foundIn h hm
  obtain ⟨path, hcontent⟩ := hscanner.elsewhere hl hscan resource hresource
  obtain ⟨-, -, executor, -, -, hexecutor, -, rfl⟩ := migration_eq_ok_iff.1 hmigration
  rw [hmake] at hexecutor
  cases hexecutor
  obtain ⟨_, _, _⟩ := resource
  cases hcontent
  rfl

end SqlResolver

end SchemaPlan
