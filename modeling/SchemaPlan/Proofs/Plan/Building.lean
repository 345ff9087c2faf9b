import SchemaPlan.Plan.Composite
import SchemaPlan.Proofs.Config
import SchemaPlan.Proofs.Resolver.Sql
import SchemaPlan.Proofs.Resolver.Units

/-!
# What a composite resolver is built of

A composite resolver can be built exactly if the configuration passes its check, the shared replacer
can be made, and every named resolver can. It then asks the default resolvers of the roots, the
extra ones and the named ones, in this order. Without code units the default resolvers of a location
find what its resolver of scripts finds (`gather_resolversOf`).
-/

namespace SchemaPlan.Composite

/-- When a composite resolver can be built, and what it is then. -/
theorem result_build_eq_ok_iff {parts : CompositeParts} {c : Composite} :
    (build parts).result = .ok c ↔
      parts.issued.config.checkMarks = .ok () ∧
        ∃ roots replacer named,
          parts.issued.config.roots.result = .ok roots ∧
            sharedReplacer parts.issued.config = .ok replacer ∧
            namedResolvers parts.registry parts.issued.config = .ok named ∧
            c = ⟨defaultResolvers parts replacer roots ++ parts.extras ++ named,
              ⟨parts.issued, parts.database⟩⟩ := by
  simp only [build, ResolveM.result_bind_eq_ok_iff, ResolveM.result_ofExcept, ResolveM.result_log,
    ResolveM.result_pure]
  constructor
  · rintro ⟨_, hcheck, roots, hroots, replacer, hreplacer, named, hnamed, _, -, hc⟩
    cases hc
    exact ⟨(Config.result_check_eq_ok_iff.1 hcheck).1, roots, replacer, named, hroots, hreplacer, hnamed,
      rfl⟩
  · rintro ⟨hmarks, roots, replacer, named, hroots, hreplacer, hnamed, rfl⟩
    exact ⟨(), Config.result_check_eq_ok_iff.2 ⟨hmarks, roots, hroots⟩, roots, hroots, replacer,
      hreplacer, named, hnamed, (), trivial, rfl⟩

/-- Building ends with the first thing that cannot be done. -/
theorem result_build (parts : CompositeParts) :
    (build parts).result =
      parts.issued.config.check.result >>= fun _ =>
        parts.issued.config.roots.result >>= fun roots =>
          sharedReplacer parts.issued.config >>= fun replacer =>
            namedResolvers parts.registry parts.issued.config >>= fun named =>
              .ok ⟨defaultResolvers parts replacer roots ++ parts.extras ++ named,
                ⟨parts.issued, parts.database⟩⟩ := by
  simp only [build, ResolveM.result_bind, ResolveM.result_ofExcept, ResolveM.result_log,
    ResolveM.result_pure]
  rfl

theorem exists_sharedReplacer_iff {c : Config} (h : c.Marked) :
    (∃ replacer, sharedReplacer c = .ok replacer) ↔ c.MarksFit :=
  Config.exists_replacer?_iff h

/-- Of marks that are too long there is no replacer. -/
theorem sharedReplacer_of_not_marksFit {c : Config} (h : c.Marked) (hlong : ¬ c.MarksFit) :
    sharedReplacer c =
      .error (.config "invalid placeholder delimiters: compiled regex exceeded size limit") := by
  rw [Config.MarksFit, Classical.not_imp, Nat.not_le] at hlong
  obtain ⟨hreplace, hlong⟩ := hlong
  rw [sharedReplacer, if_pos hreplace, Config.replacer_of_marked h hreplace, if_pos hlong]
  rfl

theorem exists_config_of_sharedReplacer {c : Config} {e : PlanError}
    (h : sharedReplacer c = .error e) : ∃ reason, e = .config reason := by
  unfold sharedReplacer at h
  split at h
  · exact Config.exists_config_of_replacer (Traversal.map_eq_error_iff.1 h)
  · cases h

/-! ### Default resolvers -/

/-- The default resolver of scripts in a location. -/
def scriptResolver (parts : CompositeParts) (replacer : Option Replacer) (l : Location) :
    SqlResolver :=
  { SqlResolver.forLocation l parts.scanner parts.issued with replacer? := replacer }

/-- The default resolver of one family of code units in a location. -/
def unitResolver (parts : CompositeParts) (kind : UnitKind) (l : Location) : UnitResolver :=
  { kind, units := parts.units, issued := parts.issued, location? := some l }

theorem resolversOf_eq (parts : CompositeParts) (replacer : Option Replacer) (l : Location) :
    resolversOf parts replacer l =
      [(scriptResolver parts replacer l).toResolver, (unitResolver parts .code l).toResolver,
        (unitResolver parts .statements l).toResolver] := rfl

/-- The shared replacer is the one that is active. -/
theorem activeReplacer_scriptResolver {parts : CompositeParts} {replacer : Option Replacer}
    (h : sharedReplacer parts.issued.config = .ok replacer) (l : Location) :
    (scriptResolver parts replacer l).activeReplacer = .ok replacer := by
  unfold sharedReplacer at h
  unfold SqlResolver.activeReplacer
  show (if !parts.issued.config.replacePlaceholders then _ else _) = _
  split at h
  · next hreplace =>
    rw [if_neg (by simp [hreplace])]
    cases replacer with
    | some shared => rfl
    | none => exact h
  · next hreplace =>
    rw [if_pos (by simp [hreplace])]
    exact h

/-- What the default resolver of scripts finds in its location. -/
theorem result_resolve_scriptResolver {parts : CompositeParts} {replacer : Option Replacer}
    (h : sharedReplacer parts.issued.config = .ok replacer) (l : Location)
    (database : Option Database) (storage : Storage) :
    ((scriptResolver parts replacer l).toResolver.resolve ⟨parts.issued, database⟩ storage).result =
      ((scriptResolver parts replacer l).foundIn storage replacer l).map Migration.sort := by
  rw [SqlResolver.resolve_toResolver rfl, SqlResolver.result_resolve_of_bound _ storage rfl,
    activeReplacer_scriptResolver h]
  rfl

theorem result_resolve_unitResolver_of_no_units {parts : CompositeParts} (h : parts.units = {})
    (kind : UnitKind) (l : Location) (database : Option Database) (storage : Storage) :
    ((unitResolver parts kind l).toResolver.resolve ⟨parts.issued, database⟩ storage).result =
      .ok [] := by
  show (unitResolver parts kind l).resolve.result = _
  have hwithin : parts.units.within kind l = [] := by
    rw [h]
    cases kind <;> rfl
  have hfound : ((unitResolver parts kind l).migrationsIn l).result = .ok [] := by
    rw [UnitResolver.result_migrationsIn]
    show (if l.isEmbedded then (parts.units.within kind l).mapM _ else Except.ok []) = _
    rw [hwithin]
    cases l.isEmbedded <;> rfl
  rw [UnitResolver.result_resolve rfl, hfound]
  exact congrArg Except.ok List.mergeSort_nil

/-- Without code units the default resolvers of a location find what its resolver of scripts finds.
-/
theorem gather_resolversOf {parts : CompositeParts} {replacer : Option Replacer}
    (hreplacer : sharedReplacer parts.issued.config = .ok replacer) (hunits : parts.units = {})
    (l : Location) (database : Option Database) (storage : Storage) :
    Traversal.gather (fun r => (r.resolve ⟨parts.issued, database⟩ storage).result)
        (resolversOf parts replacer l) =
      ((scriptResolver parts replacer l).foundIn storage replacer l).map Migration.sort := by
  rw [resolversOf_eq, Traversal.gather_cons, Traversal.gather_cons, Traversal.gather_cons,
    Traversal.gather_nil, result_resolve_unitResolver_of_no_units hunits,
    result_resolve_unitResolver_of_no_units hunits, result_resolve_scriptResolver hreplacer]
  cases (scriptResolver parts replacer l).foundIn storage replacer l with
  | error e => rfl
  | ok found => exact congrArg Except.ok (List.append_nil _)

end SchemaPlan.Composite
