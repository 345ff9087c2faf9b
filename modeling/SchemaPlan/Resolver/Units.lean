import SchemaPlan.CodeUnit
import SchemaPlan.Resolver

/-!
# The resolver of code units

The units of one family that are registered in or below the locations of the resolver, callbacks
left out. A location on disk has no units.
-/

namespace SchemaPlan

/-- A resolver of one family of code units. -/
structure UnitResolver where
  /-- The family. -/
  kind : UnitKind
  /-- The registered units. -/
  units : CodeUnits
  /-- The configuration in force. -/
  issued : IssuedConfig := .standard
  /-- The only location, if the resolver is bound to one. -/
  location? : Option Location := none
deriving DecidableEq

namespace UnitResolver

/-- Put a configuration in force. -/
def configure (r : UnitResolver) (issued : IssuedConfig) : UnitResolver := { r with issued }

/-- The migration of a unit, with a report. -/
def visit (r : UnitResolver) (u : CodeUnit) : ResolveM Migration := do
  let migration ← ResolveM.ofExcept (u.migration r.issued.config r.kind)
  ResolveM.log (.resolvedUnit migration.label migration.script r.kind.name)
  return migration

/-- The migrations of one location; on disk there are no units. -/
def migrationsIn (r : UnitResolver) (location : Location) : ResolveM (List Migration) :=
  if location.isEmbedded then (r.units.within r.kind location).mapM r.visit else return []

/-- The migrations of all locations, in the order of application. -/
def resolve (r : UnitResolver) : ResolveM (List Migration) := do
  let locations ← r.issued.config.scope r.location?
  let found ← locations.mapM fun location =>
    (r.migrationsIn location).mapError (.resolver r.kind.name location.display)
  return Migration.sort found.flatten

/-- The resolver as one of several that share their settings. -/
def toResolver (r : UnitResolver) : Resolver :=
  ⟨r.kind.name, fun settings _ => (r.configure settings.issued).resolve⟩

end UnitResolver

end SchemaPlan
