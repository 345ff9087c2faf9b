import SchemaPlan.Proofs.Plan.Defaults
import SchemaPlan.Proofs.Plan.Faults

/-!
# Placeholders and plans

Placeholders are replaced when a script is run. In a plan nothing but the executors knows of them:
the plans of two configurations that differ only in the settings for placeholders are the same when
the executors are taken off, and so are the errors (`bare_answer_or_overlong`). The settings still
decide on whether there is a composite resolver at all, because marks that are too long are refused
when it is built.
-/

namespace SchemaPlan

/-! ### Taking off the executors -/

/-- A migration without what applies it. -/
def Migration.bare (m : Migration) : Migration := { m with executor := .idle }

/-- A plan of migrations without what applies them. -/
def Plan.bare (p : Plan) : Plan := ⟨p.migrations.map Migration.bare⟩

theorem Migration.sort_map_bare (ms : List Migration) :
    sort (ms.map bare) = (sort ms).map bare :=
  (List.map_mergeSort (f := bare) fun _ _ _ _ => rfl).symm

theorem Plan.firstConflict?_map_bare (ms : List Migration) :
    firstConflict? (ms.map Migration.bare) = firstConflict? ms := by
  induction ms with
  | nil => rfl
  | cons a ms ih =>
    cases ms with
    | nil => rfl
    | cons b ms =>
      show (if a.bare.cmp b.bare = .eq then some (conflict a.bare b.bare)
        else firstConflict? ((b :: ms).map Migration.bare)) = _
      rw [ih]
      rfl

/-- Whether a plan can be made, and of what, does not depend on executors. -/
theorem Plan.ofFound_map_bare (found : List Migration) :
    ofFound (found.map Migration.bare) = (ofFound found).map bare := by
  have hfirsts : Distinct.firsts Migration.same (found.map Migration.bare) =
      (Distinct.firsts Migration.same found).map Migration.bare :=
    Distinct.firsts_map (fun _ _ => rfl) found
  have hcandidates : candidates (found.map Migration.bare) = (candidates found).map .bare := by
    rw [candidates, candidates, hfirsts, Migration.sort_map_bare]
  rw [ofFound_eq, ofFound_eq, hcandidates, firstConflict?_map_bare]
  cases firstConflict? (candidates found) <;> rfl

namespace SqlResolver

/-- Two resolvers of scripts find and read scripts alike. -/
structure ReadAlike (r r' : SqlResolver) : Prop where
  scanner : r.scanner = r'.scanner
  readName : r.readName = r'.readName
  scheme : r.issued.config.scheme = r'.issued.config.scheme
  checksumPolicy : r.checksumPolicy = r'.checksumPolicy
  makeExecutor : r.makeExecutor = .standard
  makeExecutor' : r'.makeExecutor = .standard

namespace ReadAlike

variable {r r' : SqlResolver} (h : r.ReadAlike r') (storage : Storage)
  (replacer replacer' : Option Replacer)

include h

/-- The replacer goes into the executor and nothing else. -/
theorem bare_migration (files : FileTree) (scheme : NameScheme) (repeatable : Bool)
    (resource : Resource) :
    (r.migration files replacer scheme repeatable resource).map Migration.bare =
      (r'.migration files replacer' scheme repeatable resource).map Migration.bare := by
  rw [migration_of_standard h.makeExecutor, migration_of_standard h.makeExecutor', h.readName,
    h.checksumPolicy]
  cases r'.readName resource scheme repeatable with
  | error e => rfl
  | ok title =>
    show (r'.checksumPolicy.resourceChecksum files resource >>= _).map _ =
      (r'.checksumPolicy.resourceChecksum files resource >>= _).map _
    cases r'.checksumPolicy.resourceChecksum files resource with
    | error e => rfl
    | ok checksum =>
      simp only [bind, Except.bind]
      cases Text.allBlank title.description <;> rfl

theorem bare_migrationsNamed (l : Location) (scheme : NameScheme) (repeatable : Bool) :
    (r.migrationsNamed storage replacer l scheme repeatable).result.map (List.map Migration.bare) =
      (r'.migrationsNamed storage replacer' l scheme repeatable).result.map
        (List.map Migration.bare) := by
  rw [result_migrationsNamed, result_migrationsNamed, h.scanner]
  cases (r'.scanner.scan storage l scheme.marker scheme.suffix).result with
  | error e => rfl
  | ok resources =>
    show ((scripts scheme resources).mapM _ : Except PlanError _).map _ =
      ((scripts scheme resources).mapM _ : Except PlanError _).map _
    rw [← Traversal.mapM_map, ← Traversal.mapM_map]
    exact Traversal.mapM_congr fun resource _ => h.bare_migration _ _ _ _ _ resource

/-- Resolvers that read alike find the same in a location, executors aside. -/
theorem bare_foundIn (l : Location) :
    (r.foundIn storage replacer l).map (List.map Migration.bare) =
      (r'.foundIn storage replacer' l).map (List.map Migration.bare) := by
  have hmapError : ∀ x : Except PlanError (List Migration),
      (x.mapError (PlanError.resolver name l.display)).map (List.map Migration.bare) =
        (x.map (List.map Migration.bare)).mapError (PlanError.resolver name l.display) := by
    intro x
    cases x <;> rfl
  rw [foundIn, foundIn, hmapError, hmapError, result_migrationsIn_eq_gather,
    result_migrationsIn_eq_gather, Traversal.gather_map, Traversal.gather_map, h.scheme]
  refine congrArg _ (Traversal.gather_congr fun repeatable _ => ?_)
  exact h.bare_migrationsNamed storage replacer replacer' l _ repeatable

end ReadAlike

end SqlResolver

namespace CompositeParts

/-- Two composite resolvers are to be built of the same parts, with configurations that differ only
in the settings for placeholders. -/
structure DifferInPlaceholders (a b : CompositeParts) : Prop where
  config : b.issued.config = { a.issued.config with
    replacePlaceholders := b.issued.config.replacePlaceholders
    placeholderOpening := b.issued.config.placeholderOpening
    placeholderClosing := b.issued.config.placeholderClosing
    placeholders := b.issued.config.placeholders }
  scanner : a.scanner = b.scanner
  units : a.units = b.units

namespace DifferInPlaceholders

variable {a b : CompositeParts} (h : DifferInPlaceholders a b)

include h

theorem roots_eq : a.issued.config.roots = b.issued.config.roots := by
  rw [h.config]
  rfl

theorem skip_eq : a.issued.config.skipDefaultResolvers = b.issued.config.skipDefaultResolvers := by
  rw [h.config]

theorem readAlike_scriptResolver (replacer replacer' : Option Replacer) (l : Location) :
    (Composite.scriptResolver a replacer l).ReadAlike (Composite.scriptResolver b replacer' l) where
  scanner := h.scanner
  readName := rfl
  scheme := by
    show a.issued.config.scheme = b.issued.config.scheme
    rw [h.config]
    funext repeatable
    cases repeatable <;> rfl
  checksumPolicy := by
    show a.issued.config.checksumPolicy = b.issued.config.checksumPolicy
    rw [h.config]
  makeExecutor := rfl
  makeExecutor' := rfl

/-- Code units are not looked at for placeholders. -/
theorem result_resolve_unitResolver (kind : UnitKind) (l : Location) :
    (Composite.unitResolver a kind l).resolve.result =
      (Composite.unitResolver b kind l).resolve.result := by
  refine result_resolve_unitResolver_congr (by rw [h.units]) fun u => ?_
  rw [h.config]
  rfl

/-- In each location the default resolvers find the same, executors aside. -/
theorem bare_foundAt {replacer replacer' : Option Replacer}
    (hreplacer : Composite.sharedReplacer a.issued.config = .ok replacer)
    (hreplacer' : Composite.sharedReplacer b.issued.config = .ok replacer')
    (storage : Storage) (l : Location) :
    (a.foundAt storage replacer l).map (List.map Migration.bare) =
      (b.foundAt storage replacer' l).map (List.map Migration.bare) := by
  have hscripts := (h.readAlike_scriptResolver replacer replacer' l).bare_foundIn storage replacer
    replacer' l
  rw [foundAt_eq hreplacer, foundAt_eq hreplacer']
  have hsort : ∀ x : Except PlanError (List Migration),
      (x.map Migration.sort).map (List.map Migration.bare) =
        (x.map (List.map Migration.bare)).map Migration.sort := fun x => by
    cases x with
    | error e => rfl
    | ok ms => exact congrArg Except.ok (Migration.sort_map_bare ms).symm
  rw [Traversal.gather_map, Traversal.gather_map]
  simp only [Traversal.gather_cons, Traversal.gather_nil, id, hsort, hscripts,
    h.result_resolve_unitResolver]

end DifferInPlaceholders

/-- **Settings for placeholders do not influence plans**: of two composite resolvers whose
configurations pass the check and differ only in these settings, both give the same plan, executors
aside, or the same error. The exception are marks that are too long: with these none is built. -/
theorem bare_answer_or_overlong {a b : CompositeParts} (h : DifferInPlaceholders a b)
    (hadefaults : a.DefaultsOnly) (hbdefaults : b.DefaultsOnly)
    (hacheck : a.issued.config.check.result = .ok ())
    (hbcheck : b.issued.config.check.result = .ok ()) :
    (a.issued.config.MarksFit → b.issued.config.MarksFit → ∀ storage,
      (a.answer storage).map Plan.bare = (b.answer storage).map Plan.bare) ∧
    ∀ parts ∈ [a, b], ¬ parts.issued.config.MarksFit →
      (Composite.build parts).result =
        .error (.config "invalid placeholder delimiters: compiled regex exceeded size limit") := by
  refine ⟨fun hafit hbfit storage => ?_, ?_⟩
  · obtain ⟨roots, replacer, hroots, hreplacer, hprepared⟩ := exists_prepared hacheck hafit
    obtain ⟨roots', replacer', hroots', hreplacer', hprepared'⟩ := exists_prepared hbcheck hbfit
    rw [← h.roots_eq, hroots] at hroots'
    cases hroots'
    have hfound : (a.foundByDefaults storage replacer roots).map (List.map Migration.bare) =
        (b.foundByDefaults storage replacer' roots).map (List.map Migration.bare) := by
      rw [foundByDefaults, foundByDefaults, h.skip_eq]
      split
      · rfl
      · rw [Traversal.gather_map, Traversal.gather_map]
        exact Traversal.gather_congr fun l _ => h.bare_foundAt hreplacer hreplacer' storage l
    -- the executors may be taken off before the plan is made
    have hplan : ∀ x : Except PlanError (List Migration), (x >>= Plan.ofFound).map Plan.bare =
        x.map (List.map Migration.bare) >>= Plan.ofFound := fun x => by
      cases x with
      | error e => rfl
      | ok found => exact (Plan.ofFound_map_bare found).symm
    rw [answer_of_defaultsOnly hadefaults, answer_of_defaultsOnly hbdefaults, hprepared,
      hprepared']
    exact (hplan _).trans ((congrArg (· >>= Plan.ofFound) hfound).trans (hplan _).symm)
  · simp only [List.forall_mem_cons]
    exact ⟨build_of_not_marksFit hacheck, build_of_not_marksFit hbcheck, List.forall_mem_nil _⟩

/-- Parts with the given settings for placeholders and a location in memory. -/
def withPlaceholders (replace : Bool) (values : List (String × String)) : CompositeParts where
  issued := ⟨1, { Config.standard with
    locations := ["embedded:db"], replacePlaceholders := replace
    placeholders := Dict.ofList values }⟩
  scanner := .embedded

/-- A script with a placeholder. -/
def holdingPlaceholder : Storage where
  embedded := ({} : Bundle).add "db/V1__Users.sql" (Text.bytesOf "USE $\x7bschema\x7d")

theorem bare_answer_withPlaceholders :
    DifferInPlaceholders (withPlaceholders true [("schema", "app")]) (withPlaceholders false []) ∧
      ((withPlaceholders true [("schema", "app")]).answer holdingPlaceholder).map Plan.bare =
        ((withPlaceholders false []).answer holdingPlaceholder).map Plan.bare := by
  have h : DifferInPlaceholders (withPlaceholders true [("schema", "app")])
      (withPlaceholders false []) := ⟨rfl, rfl, rfl⟩
  obtain ⟨hsame, -⟩ := bare_answer_or_overlong h ⟨rfl, rfl⟩ ⟨rfl, rfl⟩ (by rfl) (by rfl)
  exact ⟨h, hsame (fun _ => by decide) (fun _ => by decide) holdingPlaceholder⟩

/-- The check lets an opening mark pass that is too long, but with it there is an error instead of
the plan. -/
theorem not_bare_answer_overlongMark :
    ¬ ∀ a b : CompositeParts, DifferInPlaceholders a b → a.DefaultsOnly → b.DefaultsOnly →
      a.issued.config.check.result = .ok () → b.issued.config.check.result = .ok () →
      ∀ storage, (a.answer storage).map Plan.bare = (b.answer storage).map Plan.bare := by
  intro hall
  have hstandard : ({ issued := ⟨1, .standard⟩ } : CompositeParts).answer {} = .ok ⟨[]⟩ := by cbv
  have hsame := hall { issued := ⟨1, .standard⟩ } overlongMark ⟨rfl, rfl, rfl⟩ ⟨rfl, rfl⟩ ⟨rfl, rfl⟩
    (by rfl) check_overlongMark {}
  rw [hstandard, answer,
    build_of_not_marksFit check_overlongMark not_marksFit_overlongMark] at hsame
  cases hsame

end CompositeParts

end SchemaPlan
