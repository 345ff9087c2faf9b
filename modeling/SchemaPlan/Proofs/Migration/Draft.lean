import SchemaPlan.CodeUnit
import SchemaPlan.Proofs.NameScheme
import SchemaPlan.Proofs.Traversal

/-!
# Migrations that are complete

A draft in which no part is missing is a migration unless its description is blank. A code unit has
a migration exactly if it has a title with a description that is not blank, and the migration says
which unit it came from.
-/

namespace SchemaPlan

/-- A draft with all its parts is a migration unless its description is blank. -/
theorem Migration.Draft.complete_eq (version : Option Version) (description script : String)
    (checksum : Option Int32) (kind : ArtifactKind) (physicalLocation : String)
    (executor : Executor) :
    Draft.complete
        ⟨version, description, some script, checksum, kind, some physicalLocation, some executor⟩ =
      if Text.allBlank description then
        .error (.missingDescription ((version.map Version.text).getD description))
      else .ok ⟨version, description, script, checksum, kind, physicalLocation, executor⟩ := by
  unfold complete
  cases Text.allBlank description <;> rfl

/-- What the migration of a code unit is made of. -/
theorem CodeUnit.migration_eq_ok_iff {c : Config} {kind : UnitKind} {u : CodeUnit} {m : Migration} :
    u.migration c kind = .ok m ↔
      ∃ title, u.titleOf c = .ok title ∧ Text.allBlank title.description = false ∧
        m = ⟨title.version, title.description, u.script, u.checksum, kind.artifact, u.origin,
          .statements u.scripts u.inTransaction⟩ := by
  unfold migration
  simp only [Traversal.bind_eq_ok_iff, Migration.Draft.complete_eq]
  refine exists_congr fun title => and_congr_right fun _ => ?_
  cases Text.allBlank title.description with
  | true => exact iff_of_false (by rintro ⟨⟩) (by rintro ⟨⟨⟩, -⟩)
  | false => exact ⟨fun h => ⟨rfl, by cases h; rfl⟩, fun ⟨_, h⟩ => by rw [h]; rfl⟩

namespace CodeUnit

variable {c : Config} {u : CodeUnit} {e : PlanError}

theorem exists_invalidName_of_readName {name : String} (h : readName c name = .error e) :
    ∃ reason, e = .invalidName name reason := by
  unfold readName at h
  split at h
  · exact NameScheme.exists_invalidName_of_read h
  split at h
  · exact NameScheme.exists_invalidName_of_read h
  · cases h
    exact ⟨_, rfl⟩

/-- A unit that has no title has a bad name and says nothing about itself, or it says that it has a
blank description. -/
theorem of_titleOf_eq_error (h : u.titleOf c = .error e) :
    (u.title = none ∧ ∃ reason, e = .invalidName u.name reason) ∨
      ∃ title, u.title = some title ∧ Text.allBlank title.description ∧
        e = .missingDescription ((title.version.map Version.text).getD u.name) := by
  unfold titleOf at h
  split at h
  · next htitle => exact .inl ⟨htitle, exists_invalidName_of_readName h⟩
  · next title htitle =>
    split at h
    · next hblank =>
      cases h
      exact .inr ⟨title, htitle, hblank, rfl⟩
    · cases h

/-- The description of a unit is not blank, whether it is told by the unit or by its name. -/
theorem allBlank_of_titleOf {title : Title} (h : u.titleOf c = .ok title) :
    Text.allBlank title.description = false := by
  unfold titleOf at h
  split at h
  · unfold readName at h
    split at h
    · exact NameScheme.allBlank_of_read h
    split at h
    · exact NameScheme.allBlank_of_read h
    · cases h
  · split at h
    · cases h
    · next hblank =>
      cases h
      exact Bool.eq_false_iff.2 hblank

/-- All that a unit can lack for a migration is a title. -/
theorem verdict_migration (c : Config) (kind : UnitKind) (u : CodeUnit) :
    Traversal.verdict (u.migration c kind) = Traversal.verdict (u.titleOf c) := by
  unfold migration
  cases htitle : u.titleOf c with
  | error e => rfl
  | ok title =>
    show Traversal.verdict (Migration.Draft.complete _) = _
    rw [Migration.Draft.complete_eq, allBlank_of_titleOf htitle, if_neg Bool.false_ne_true]
    rfl

end CodeUnit

end SchemaPlan
