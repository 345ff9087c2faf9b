import SchemaPlan.Proofs.Plan.Placeholders

/-!
# What is accepted on disk

A program that holds nothing in memory and has no code units asks only for scripts on disk. Which of
them the default resolvers match, and what each of them says, can be told without any resolver
(`Matched`, `record`). A plan is refused unless the configuration passes its check, names no
resolvers and has marks around placeholders that are not too long, each root can be scanned, and
each matched script has a record (`Resolves`). If it is not refused, nothing but records that contradict
each other keeps it from being made (`ends_answer`), and an error is a conflict exactly then.
-/

namespace SchemaPlan

/-! ### Matched scripts -/

namespace Config

variable {c : Config} {files : FileTree} {repeatable : Bool} {resource : Resource}

/-- A script is matched as one of one kind: a scan of a root finds it, and it is no callback. Where
the default resolvers are switched off, nothing is matched. -/
structure Matched (c : Config) (files : FileTree) (repeatable : Bool) (resource : Resource) :
    Prop where
  active : c.skipDefaultResolvers = false
  found : ∃ roots, c.roots.result = .ok roots ∧ ∃ l ∈ roots, ∃ resources,
    (files.scan l (c.scheme repeatable).marker (c.scheme repeatable).suffix).result =
      .ok resources ∧ resource ∈ resources
  noCallback : isCallbackName resource.filename c.suffix = false

/-- What a script says as one of one kind: its migration without an executor. -/
def record (c : Config) (files : FileTree) (repeatable : Bool) (resource : Resource) :
    Except PlanError Migration := do
  let title ← (c.scheme repeatable).read resource.filename repeatable
  let checksum ← c.checksumPolicy.resourceChecksum files resource
  return ⟨title.version, title.description, resource.path, some checksum, .sql,
    resource.physicalLocation, .idle⟩

/-- The default resolvers make a migration: it is what a matched script says. -/
def Makes (c : Config) (files : FileTree) (m : Migration) : Prop :=
  ∃ repeatable resource, c.Matched files repeatable resource ∧
    c.record files repeatable resource = .ok m

/-- Two of the migrations are in one place and no duplicates. -/
def Collides (c : Config) (files : FileTree) : Prop :=
  ∃ a b, c.Makes files a ∧ c.Makes files b ∧ a.Contradicts b

/-- Nothing collides where nothing is matched. -/
theorem not_collides_of_not_matched
    (h : ∀ repeatable resource, ¬ c.Matched files repeatable resource) : ¬ c.Collides files := by
  rintro ⟨_, _, ⟨repeatable, resource, hmatched, -⟩, -⟩
  exact h repeatable resource hmatched

/-- Nothing is in the way of a plan but conflicts. -/
structure Resolves (c : Config) (files : FileTree) : Prop where
  checked : c.check.result = .ok ()
  unnamed : c.resolvers = []
  /-- The marks around placeholders are not too long. -/
  fits : c.MarksFit
  /-- All directories that the default resolvers look into can be listed. -/
  listed : c.skipDefaultResolvers = false → ∀ roots, c.roots.result = .ok roots →
    ∀ l ∈ roots, ∀ repeatable, ∃ resources,
      (files.scan l (c.scheme repeatable).marker (c.scheme repeatable).suffix).result =
        .ok resources
  /-- Each matched script says something. -/
  records : ∀ repeatable resource, c.Matched files repeatable resource →
    ∃ m, c.record files repeatable resource = .ok m

end Config

/-- What a resolver makes of a script is its record, executor aside. -/
theorem SqlResolver.bare_migration_eq_record {r : SqlResolver} (hread : r.readName = .byFilename)
    (hmake : r.makeExecutor = .standard) (files : FileTree) (replacer : Option Replacer)
    (repeatable : Bool) (resource : Resource) :
    (r.migration files replacer (r.issued.config.scheme repeatable) repeatable resource).map
      Migration.bare = r.issued.config.record files repeatable resource := by
  rw [migration_of_standard hmake, hread, Config.record]
  show ((r.issued.config.scheme repeatable).read resource.filename repeatable >>= _).map _ = _
  cases htitle : (r.issued.config.scheme repeatable).read resource.filename repeatable with
  | error e => rfl
  | ok title =>
    show (r.checksumPolicy.resourceChecksum files resource >>= _).map _ =
      (r.checksumPolicy.resourceChecksum files resource >>= _)
    cases r.checksumPolicy.resourceChecksum files resource with
    | error e => rfl
    | ok checksum =>
      simp only [bind, Except.bind, NameScheme.allBlank_of_read htitle]
      rfl

theorem SqlResolver.exists_migration_iff {r : SqlResolver} (hread : r.readName = .byFilename)
    (hmake : r.makeExecutor = .standard) {files : FileTree} {replacer : Option Replacer}
    {repeatable : Bool} {resource : Resource} :
    (∃ m, r.migration files replacer (r.issued.config.scheme repeatable) repeatable resource =
      .ok m) ↔ ∃ m, r.issued.config.record files repeatable resource = .ok m := by
  simp only [← bare_migration_eq_record hread hmake files replacer, Traversal.map_eq_ok_iff]
  exact ⟨fun ⟨m, hm⟩ => ⟨_, m, hm, rfl⟩, fun ⟨_, m, hm, _⟩ => ⟨m, hm⟩⟩

/-! ### The composite resolver -/

namespace CompositeParts

/-- The parts of a program that holds nothing in memory and has no code units. -/
def onDisk (c : Config) : CompositeParts := { issued := ⟨1, c⟩ }

variable {c : Config} {files : FileTree} {memory : Bundle} {replacer : Option Replacer}
  {roots : List Location} {l : Location} {e : PlanError}

/-- Something is found in a root if it can be scanned and each script in it has a record. -/
theorem exists_foundIn_onDisk_iff :
    (∃ found, (Composite.scriptResolver (onDisk c) replacer l).foundIn ⟨files, memory⟩ replacer l =
      .ok found) ↔ ∀ repeatable, ∃ resources,
        (files.scan l (c.scheme repeatable).marker (c.scheme repeatable).suffix).result =
          .ok resources ∧
        ∀ resource ∈ resources, isCallbackName resource.filename c.suffix = false →
          ∃ m, c.record files repeatable resource = .ok m := by
  rw [SqlResolver.exists_foundIn_iff]
  refine forall_congr' fun repeatable => exists_congr fun resources => ?_
  show (Scanner.withoutEmbedded.scan ⟨files, memory⟩ l (c.scheme repeatable).marker
    (c.scheme repeatable).suffix).result = .ok resources ∧ _ ↔ _
  rw [Scanner.result_scan_withoutEmbedded]
  refine and_congr_right fun _ => forall_congr' fun resource => ?_
  rw [SqlResolver.mem_scripts_iff, and_imp]
  refine imp_congr_right fun _ => ?_
  rw [SqlResolver.exists_migration_iff rfl rfl]
  show (isCallbackName resource.filename (c.scheme repeatable).suffix = false → _) ↔ _
  rw [Config.suffix_scheme]
  rfl

/-- What is found in a root are, executors aside, the records of the scripts in it. -/
theorem exists_mem_foundIn_onDisk_iff {found : List Migration}
    (h : (Composite.scriptResolver (onDisk c) replacer l).foundIn ⟨files, memory⟩ replacer l =
      .ok found) {m : Migration} :
    (∃ a ∈ found, a.bare = m) ↔ ∃ repeatable resources,
      (files.scan l (c.scheme repeatable).marker (c.scheme repeatable).suffix).result =
        .ok resources ∧
      ∃ resource ∈ resources, isCallbackName resource.filename c.suffix = false ∧
        c.record files repeatable resource = .ok m := by
  have hscan : ∀ repeatable, ((onDisk c).scanner.scan ⟨files, memory⟩ l
      (c.scheme repeatable).marker (c.scheme repeatable).suffix).result =
        (files.scan l (c.scheme repeatable).marker (c.scheme repeatable).suffix).result :=
    fun repeatable => Scanner.result_scan_withoutEmbedded ⟨files, memory⟩ l _ _
  have hrecord (repeatable : Bool) (resource : Resource) :
      ((Composite.scriptResolver (onDisk c) replacer l).migration files replacer
        (c.scheme repeatable) repeatable resource).map Migration.bare =
          c.record files repeatable resource :=
    SqlResolver.bare_migration_eq_record rfl rfl files replacer repeatable resource
  constructor
  · rintro ⟨a, ha, rfl⟩
    obtain ⟨repeatable, resources, hresources, resource, hresource, hmigration⟩ :=
      (SqlResolver.mem_foundIn_iff_migration h).1 ha
    obtain ⟨hresource, hcallback⟩ := SqlResolver.mem_scripts_iff.1 hresource
    refine ⟨repeatable, resources, (hscan repeatable).symm.trans hresources, resource, hresource,
      ?_, ?_⟩
    · rwa [← Config.suffix_scheme c repeatable]
    · rw [← hrecord]
      exact Traversal.map_eq_ok_iff.2 ⟨a, hmigration, rfl⟩
  · rintro ⟨repeatable, resources, hresources, resource, hresource, hcallback, hm⟩
    rw [← hrecord] at hm
    obtain ⟨a, hmigration, rfl⟩ := Traversal.map_eq_ok_iff.1 hm
    refine ⟨a, (SqlResolver.mem_foundIn_iff_migration h).2 ⟨repeatable, resources,
      (hscan repeatable).trans hresources, resource, ?_, hmigration⟩, rfl⟩
    refine SqlResolver.mem_scripts_iff.2 ⟨hresource, ?_⟩
    exact (congrArg _ (Config.suffix_scheme c repeatable)).trans hcallback

section Roots

variable (hskip : c.skipDefaultResolvers = false) (hroots : c.roots.result = .ok roots)

include hskip hroots

/-- Something is found in all roots if these can be scanned and each matched script has a record. -/
theorem exists_foundInRoots_onDisk_iff :
    (∃ founds, (onDisk c).foundInRoots replacer roots ⟨files, memory⟩ = .ok founds) ↔
      (∀ l ∈ roots, ∀ repeatable, ∃ resources,
        (files.scan l (c.scheme repeatable).marker (c.scheme repeatable).suffix).result =
          .ok resources) ∧
      ∀ repeatable resource, c.Matched files repeatable resource →
        ∃ m, c.record files repeatable resource = .ok m := by
  unfold foundInRoots
  simp only [Traversal.exists_mapM_eq_ok_iff, exists_foundIn_onDisk_iff]
  constructor
  · intro h
    refine ⟨fun l hl repeatable => (h l hl repeatable).imp fun _ hscan => hscan.1, ?_⟩
    rintro repeatable resource ⟨-, ⟨roots', hroots', l, hl, resources, hscan, hresource⟩, hcallback⟩
    obtain rfl := Except.ok.inj (hroots.symm.trans hroots')
    obtain ⟨resources', hscan', hrecords⟩ := h l hl repeatable
    obtain rfl := Except.ok.inj (hscan.symm.trans hscan')
    exact hrecords resource hresource hcallback
  · rintro ⟨hlisted, hrecords⟩ l hl repeatable
    obtain ⟨resources, hscan⟩ := hlisted l hl repeatable
    exact ⟨resources, hscan, fun resource hresource hcallback => hrecords repeatable resource
      ⟨hskip, ⟨roots, hroots, l, hl, resources, hscan, hresource⟩, hcallback⟩⟩

/-- The migrations that are found are, executors aside, those that the default resolvers make. -/
theorem makes_iff {founds : List (List Migration)}
    (h : (onDisk c).foundInRoots replacer roots ⟨files, memory⟩ = .ok founds) {m : Migration} :
    c.Makes files m ↔ ∃ a ∈ (founds.map Migration.sort).flatten, a.bare = m := by
  have hmem (a : Migration) : a ∈ (founds.map Migration.sort).flatten ↔ ∃ l ∈ roots, ∃ found,
      (Composite.scriptResolver (onDisk c) replacer l).foundIn ⟨files, memory⟩ replacer l =
        .ok found ∧ a ∈ found := by
    simp only [List.mem_flatten, List.mem_map, exists_exists_and_eq_and, Migration.mem_sort]
    constructor
    · rintro ⟨found, hfound, ha⟩
      obtain ⟨l, hl, hfound⟩ := (Traversal.mem_of_mapM_eq_ok h).1 hfound
      exact ⟨l, hl, found, hfound, ha⟩
    · rintro ⟨l, hl, found, hfound, ha⟩
      exact ⟨found, (Traversal.mem_of_mapM_eq_ok h).2 ⟨l, hl, hfound⟩, ha⟩
  constructor
  · rintro ⟨repeatable, resource, hmatched, hm⟩
    obtain ⟨roots', hroots', l, hl, resources, hscan, hresource⟩ := hmatched.found
    obtain rfl := Except.ok.inj (hroots.symm.trans hroots')
    obtain ⟨found, hfound⟩ := Traversal.exists_mapM_eq_ok_iff.1 ⟨founds, h⟩ l hl
    obtain ⟨a, ha, hbare⟩ := (exists_mem_foundIn_onDisk_iff hfound).2
      ⟨repeatable, resources, hscan, resource, hresource, hmatched.noCallback, hm⟩
    exact ⟨a, (hmem a).2 ⟨l, hl, found, hfound, ha⟩, hbare⟩
  · rintro ⟨a, ha, hbare⟩
    obtain ⟨l, hl, found, hfound, ha⟩ := (hmem a).1 ha
    obtain ⟨repeatable, resources, hscan, resource, hresource, hcallback, hm⟩ :=
      (exists_mem_foundIn_onDisk_iff hfound).1 ⟨a, ha, hbare⟩
    exact ⟨repeatable, resource,
      ⟨hskip, ⟨roots, hroots, l, hl, resources, hscan, hresource⟩, hcallback⟩, hm⟩

end Roots

/-! ### How it ends -/

/-- Nothing that is in the way of building is a conflict. -/
theorem isConflict_of_build (h : (Composite.build (onDisk c)).result = .error e) :
    e.isConflict = false := by
  simp only [Composite.result_build, Traversal.bind_eq_error_iff] at h
  rcases h with hcheck | ⟨_, -, hroots | ⟨_, -, hreplacer | ⟨_, -, hnamed | ⟨_, -, ⟨⟩⟩⟩⟩⟩
  · exact Config.isConflict_of_check hcheck
  · obtain ⟨reason, rfl⟩ := Config.exists_invalidLocation_of_roots hroots
    rfl
  · obtain ⟨reason, rfl⟩ := Composite.exists_config_of_sharedReplacer hreplacer
    rfl
  · obtain ⟨name, -, hname⟩ := Traversal.exists_of_mapM_eq_error hnamed
    cases hname
    rfl

/-- Where no resolvers are registered, none can be named. -/
theorem resolvers_of_build {composite : Composite}
    (h : (Composite.build (onDisk c)).result = .ok composite) : c.resolvers = [] := by
  obtain ⟨-, _, _, named, -, -, hnamed, -⟩ := Composite.result_build_eq_ok_iff.1 h
  refine List.eq_nil_iff_forall_not_mem.2 fun name hname => ?_
  obtain ⟨_, hmake⟩ := Traversal.exists_mapM_eq_ok_iff.1 ⟨named, hnamed⟩ name hname
  cases hmake

end CompositeParts

/-- What the plan of the scripts on disk comes to. -/
inductive Config.Ends (c : Config) (files : FileTree) : Except PlanError Plan → Prop where
  /-- A plan is made. -/
  | planned (plan : Plan) (resolves : c.Resolves files) (collides : ¬ c.Collides files) :
    Ends c files (.ok plan)
  /-- There is a conflict. -/
  | conflict {e : PlanError} (conflict : e.isConflict) (resolves : c.Resolves files)
    (collides : c.Collides files) : Ends c files (.error e)
  /-- Something is in the way. -/
  | refused {e : PlanError} (other : e.isConflict = false) (refused : ¬ c.Resolves files) :
    Ends c files (.error e)

namespace Config

variable {c : Config} {files : FileTree} {memory : Bundle}

section Built

variable (hcheck : c.check.result = .ok ()) (hunnamed : c.resolvers = []) (hfits : c.MarksFit)

include hcheck hunnamed hfits

/-- Without the default resolvers there is nothing to plan. -/
theorem ends_of_skip (hskip : c.skipDefaultResolvers = true) : c.Ends files (Plan.ofFound []) := by
  have hnothing (repeatable : Bool) (resource : Resource) :
      ¬ c.Matched files repeatable resource := by
    rintro ⟨hactive, -, -⟩
    rw [hactive] at hskip
    cases hskip
  have hresolves : c.Resolves files :=
    ⟨hcheck, hunnamed, hfits, fun h => absurd (hskip.symm.trans h) (by decide),
      fun _ _ h => absurd h (hnothing _ _)⟩
  cases hplan : Plan.ofFound [] with
  | ok plan => exact .planned plan hresolves (not_collides_of_not_matched hnothing)
  | error e =>
    obtain ⟨_, _, hleast, -⟩ := Plan.exists_leastConflict_of_ofFound hplan
    cases hleast.first_mem

section Roots

variable (hskip : c.skipDefaultResolvers = false) {roots : List Location}
  (hroots : c.roots.result = .ok roots) {replacer : Option Replacer}

include hskip hroots

/-- What is found in all roots is planned, or records in it contradict each other. -/
theorem ends_of_foundInRoots {founds : List (List Migration)}
    (hfounds : (CompositeParts.onDisk c).foundInRoots replacer roots ⟨files, memory⟩ =
      .ok founds) : c.Ends files (Plan.ofFound (founds.map Migration.sort).flatten) := by
  obtain ⟨hlisted, hrecords⟩ :=
    (CompositeParts.exists_foundInRoots_onDisk_iff hskip hroots).1 ⟨founds, hfounds⟩
  have hresolves : c.Resolves files := by
    refine ⟨hcheck, hunnamed, hfits, fun _ roots' hroots' => ?_, hrecords⟩
    rwa [← Except.ok.inj (hroots.symm.trans hroots')]
  have hcollides : c.Collides files ↔ ∃ e, Plan.ofFound (founds.map Migration.sort).flatten =
      .error e := by
    rw [Plan.ofFound_eq_error_iff]
    simp only [Collides, CompositeParts.makes_iff hskip hroots hfounds]
    constructor
    · rintro ⟨_, _, ⟨a, ha, rfl⟩, ⟨b, hb, rfl⟩, hab⟩
      exact ⟨a, ha, b, hb, hab⟩
    · rintro ⟨a, ha, b, hb, hab⟩
      exact ⟨_, _, ⟨a, ha, rfl⟩, ⟨b, hb, rfl⟩, hab⟩
  cases hplan : Plan.ofFound (founds.map Migration.sort).flatten with
  | ok plan =>
    refine .planned plan hresolves fun h => ?_
    obtain ⟨e, he⟩ := hcollides.1 h
    cases hplan.symm.trans he
  | error e =>
    exact .conflict (CompositeParts.isConflict_of_ofFound hplan) hresolves (hcollides.2 ⟨e, hplan⟩)

end Roots

end Built

/-- What goes wrong in a root is in the way of a plan. -/
theorem ends_of_foundInRoots_eq_error (hskip : c.skipDefaultResolvers = false)
    {roots : List Location} (hroots : c.roots.result = .ok roots) {replacer : Option Replacer}
    {e : PlanError} (hfounds : (CompositeParts.onDisk c).foundInRoots replacer roots
      ⟨files, memory⟩ = .error e) : c.Ends files (.error e) := by
  obtain ⟨l, -, hl⟩ := Traversal.exists_of_mapM_eq_error hfounds
  obtain ⟨cause, -, rfl⟩ := SqlResolver.foundIn_eq_error_iff.1 hl
  refine .refused rfl fun h => ?_
  obtain ⟨founds, hok⟩ := (CompositeParts.exists_foundInRoots_onDisk_iff hskip hroots).2
    ⟨h.listed hskip roots hroots, h.records⟩
  cases hfounds.symm.trans hok

/-- Without anything in the way a plan is made or there is a conflict. -/
theorem ends_answer (c : Config) (files : FileTree) (memory : Bundle) :
    c.Ends files ((CompositeParts.onDisk c).answer ⟨files, memory⟩) := by
  unfold CompositeParts.answer
  cases hbuild : (Composite.build (.onDisk c)).result with
  | error e =>
    refine .refused (CompositeParts.isConflict_of_build hbuild) fun h => ?_
    obtain ⟨_, hok⟩ :=
      (@CompositeParts.exists_build_iff (.onDisk c) h.unnamed).2 ⟨h.checked, h.fits⟩
    cases hbuild.symm.trans hok
  | ok composite =>
  have hunnamed := CompositeParts.resolvers_of_build hbuild
  obtain ⟨hcheck, hfits⟩ :=
    (@CompositeParts.exists_build_iff (.onDisk c) hunnamed).1 ⟨composite, hbuild⟩
  obtain ⟨roots, replacer, hroots, hreplacer, hanswer⟩ :=
    @CompositeParts.answer_of_build (.onDisk c) hunnamed rfl composite hbuild
  show c.Ends files (composite.answer ⟨files, memory⟩)
  rw [hanswer]
  cases hskip : c.skipDefaultResolvers with
  | true =>
    have hnone : Composite.defaultResolvers (.onDisk c) replacer roots = [] := if_pos hskip
    rw [hnone]
    exact ends_of_skip hcheck hunnamed hfits hskip
  | false =>
  rw [CompositeParts.gather_defaultResolvers ⟨hskip, hunnamed, rfl, rfl⟩ hreplacer]
  cases hfounds : (CompositeParts.onDisk c).foundInRoots replacer roots ⟨files, memory⟩ with
  | error e => exact ends_of_foundInRoots_eq_error hskip hroots hfounds
  | ok founds => exact ends_of_foundInRoots hcheck hunnamed hfits hskip hroots hfounds

end Config

end SchemaPlan
