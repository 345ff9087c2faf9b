import SchemaPlan.Proofs.Migration.Draft
import SchemaPlan.Proofs.Migration.Order
import SchemaPlan.Proofs.Traversal
import SchemaPlan.Resolver.Units

/-!
# What a resolver of code units finds

A resolver that is bound to one location succeeds exactly if every unit of its family there has a
migration (`exists_resolve_iff`), and it finds the migrations of these units (`mem_of_resolve`). The
order of registration decides neither.
-/

namespace SchemaPlan.UnitResolver

variable {r : UnitResolver} {l : Location}

theorem result_visit (r : UnitResolver) (u : CodeUnit) :
    (r.visit u).result = u.migration r.issued.config r.kind := by
  unfold visit
  rw [ResolveM.result_bind, ResolveM.result_ofExcept]
  cases u.migration r.issued.config r.kind <;> rfl

theorem result_migrationsIn (r : UnitResolver) (l : Location) :
    (r.migrationsIn l).result =
      if l.isEmbedded then
        (r.units.within r.kind l).mapM fun u => u.migration r.issued.config r.kind
      else .ok [] := by
  unfold migrationsIn
  split
  · rw [ResolveM.result_mapM]
    simp only [result_visit]
  · rfl

/-- What is found in one location, with the location named in an error. -/
def foundIn (r : UnitResolver) (l : Location) : Except PlanError (List Migration) :=
  (r.migrationsIn l).result.mapError (.resolver r.kind.name l.display)

/-- What is found in all locations, in the order in which it is found. -/
def foundInScope (r : UnitResolver) : Except PlanError (List Migration) :=
  (r.issued.config.scope r.location?).result >>= Traversal.gather r.foundIn

/-- A resolver gives what it finds in all locations together, sorted. -/
theorem result_resolve_eq (r : UnitResolver) :
    r.resolve.result = r.foundInScope.map Migration.sort := by
  unfold resolve foundInScope
  simp only [ResolveM.result_bind, ResolveM.result_pure, ResolveM.result_mapM,
    ResolveM.result_mapError]
  cases (r.issued.config.scope r.location?).result with
  | error e => rfl
  | ok ls =>
    show ls.mapM r.foundIn >>= _ = (Traversal.gather r.foundIn ls).map Migration.sort
    unfold Traversal.gather
    cases ls.mapM r.foundIn <;> rfl

/-- A resolver that is bound to a location gives its migrations, sorted. -/
theorem result_resolve (h : r.location? = some l) :
    r.resolve.result =
      ((r.migrationsIn l).result.mapError (.resolver r.kind.name l.display)).map
        Migration.sort := by
  rw [result_resolve_eq, foundInScope, h]
  exact congrArg (Except.map Migration.sort) (Traversal.gather_singleton r.foundIn l)

/-- A resolver that is bound to a location makes a migration of each unit of its family there. -/
theorem result_resolve_eq_ok_iff (h : r.location? = some l) {found : List Migration} :
    r.resolve.result = .ok found ↔
      ∃ ms, List.Forall₂ (fun u m => u.migration r.issued.config r.kind = .ok m)
          (if l.isEmbedded then r.units.within r.kind l else []) ms ∧
        Migration.sort ms = found := by
  rw [result_resolve h, result_migrationsIn, Traversal.map_eq_ok_iff]
  refine exists_congr fun ms => and_congr_left fun _ => ?_
  rw [Traversal.mapError_eq_ok_iff, ← Traversal.mapM_eq_ok_iff]
  cases l.isEmbedded <;> rfl

/-- A resolver that is bound to a location succeeds if all of its units there have migrations. -/
theorem exists_resolve_iff (h : r.location? = some l) :
    (∃ found, r.resolve.result = .ok found) ↔
      (l.isEmbedded →
        ∀ u ∈ r.units.within r.kind l, ∃ m, u.migration r.issued.config r.kind = .ok m) := by
  have hunits : (∃ found, r.resolve.result = .ok found) ↔
      ∀ u ∈ (if l.isEmbedded then r.units.within r.kind l else []),
        ∃ m, u.migration r.issued.config r.kind = .ok m := by
    rw [← Traversal.exists_mapM_eq_ok_iff]
    simp only [result_resolve_eq_ok_iff h, Traversal.mapM_eq_ok_iff]
    exact ⟨fun ⟨_, ms, hms, _⟩ => ⟨ms, hms⟩, fun ⟨ms, hms⟩ => ⟨_, ms, hms, rfl⟩⟩
  rw [hunits]
  cases l.isEmbedded <;> simp

/-- A resolver that is bound to a location finds the migrations of its units there. -/
theorem mem_of_resolve (h : r.location? = some l) {found : List Migration}
    (hfound : r.resolve.result = .ok found) {m : Migration} :
    m ∈ found ↔ l.isEmbedded ∧
      ∃ u ∈ r.units.within r.kind l, u.migration r.issued.config r.kind = .ok m := by
  obtain ⟨ms, hms, rfl⟩ := (result_resolve_eq_ok_iff h).1 hfound
  rw [Migration.mem_sort, Traversal.mem_of_mapM_eq_ok (Traversal.mapM_eq_ok_iff.2 hms)]
  cases l.isEmbedded <;> simp

/-- What a resolver finds is of its family. -/
theorem kind_of_mem_resolve (h : r.location? = some l) {found : List Migration}
    (hfound : r.resolve.result = .ok found) : ∀ m ∈ found, m.kind = r.kind.artifact := by
  intro m hm
  obtain ⟨-, u, -, hu⟩ := (mem_of_resolve h hfound).1 hm
  obtain ⟨_, -, -, rfl⟩ := CodeUnit.migration_eq_ok_iff.1 hu
  rfl

end SchemaPlan.UnitResolver
