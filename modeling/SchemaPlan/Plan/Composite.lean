import SchemaPlan.Plan
import SchemaPlan.Resolver.Registry
import SchemaPlan.Resolver.Sql
import SchemaPlan.Resolver.Units

/-!
# Composite resolvers

A composite resolver asks several resolvers, one after the other, and makes one plan of what they
find. By default each location has one resolver for scripts and one for each family of code units;
after these come extra resolvers and those that the configuration names. All of them share their
settings.
-/

namespace SchemaPlan

/-- Several resolvers and the settings that they share. -/
structure Composite where
  resolvers : List Resolver
  settings : Settings

/-- What a composite resolver is put together from. -/
structure CompositeParts where
  /-- The configuration. -/
  issued : IssuedConfig
  /-- What finds scripts; without embedded resources if nothing else is given. -/
  scanner : Scanner := .withoutEmbedded
  /-- The registered code units. -/
  units : CodeUnits := {}
  /-- The database, if it is known. -/
  database : Option Database := none
  /-- Further resolvers, which come after the default ones. -/
  extras : List Resolver := []
  /-- The makers of the resolvers that a configuration may name. -/
  registry : Registry := {}

namespace Composite

/-! ### Putting resolvers together -/

/-- The default resolvers of one location. -/
def resolversOf (parts : CompositeParts) (replacer : Option Replacer) (location : Location) :
    List Resolver :=
  let sql : SqlResolver :=
    { SqlResolver.forLocation location parts.scanner parts.issued with replacer? := replacer }
  let units (kind : UnitKind) : UnitResolver :=
    { kind, units := parts.units, issued := parts.issued, location? := some location }
  [sql.toResolver, (units .code).toResolver, (units .statements).toResolver]

/-- The default resolvers of all locations; none if they are switched off. -/
def defaultResolvers (parts : CompositeParts) (replacer : Option Replacer)
    (locations : List Location) : List Resolver :=
  if parts.issued.config.skipDefaultResolvers then []
  else locations.flatMap (resolversOf parts replacer)

/-- The replacer that all scripts share; none if placeholders are not to be replaced. -/
def sharedReplacer (c : Config) : Except PlanError (Option Replacer) :=
  if c.replacePlaceholders then c.replacer.map some else .ok none

/-- The resolvers that a configuration names. -/
def namedResolvers (registry : Registry) (c : Config) : Except PlanError (List Resolver) :=
  c.resolvers.mapM fun name => registry.make name c

/-- Check the configuration and put the resolvers together. -/
def build (parts : CompositeParts) : ResolveM Composite := do
  let config := parts.issued.config
  config.check
  let locations ← config.roots
  let replacer ← ResolveM.ofExcept (sharedReplacer config)
  let named ← ResolveM.ofExcept (namedResolvers parts.registry config)
  let resolvers := defaultResolvers parts replacer locations ++ parts.extras ++ named
  ResolveM.log (.builtComposite locations.length resolvers.length)
  return ⟨resolvers, ⟨parts.issued, parts.database⟩⟩

/-! ### Making the plan -/

/-- The names of the resolvers, in the order in which they are asked. -/
def names (c : Composite) : List String := c.resolvers.map Resolver.name

/-- What one resolver finds, with a report. -/
def ask (settings : Settings) (storage : Storage) (resolver : Resolver) :
    ResolveM (List Migration) := do
  ResolveM.step (.resolverAsked resolver.name)
  let found ← resolver.resolve settings storage
  ResolveM.log (.resolverFinished resolver.name found.length)
  return found

/-- Ask all resolvers in order, up to the first that fails, and make the plan. -/
def makePlan (c : Composite) (storage : Storage) : ResolveM Plan := do
  let found ← c.resolvers.mapM (ask c.settings storage)
  Plan.ofFoundM found.flatten

end Composite

end SchemaPlan
