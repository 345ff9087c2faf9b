import SchemaPlan.Callback
import SchemaPlan.Resolver

/-!
# SQL scripts

The resolver of SQL scripts scans each location twice, for versioned and for repeatable scripts, and
leaves out callbacks. Name, content and checksum of a script are looked at now; its placeholders are
replaced when it is run, by a replacer that belongs to the configuration in force.
-/

namespace SchemaPlan

/-- A way to tell what a resource says about its migration, by a name scheme and for a versioned
or a repeatable one. -/
abbrev NameReader : Type := Resource → NameScheme → Bool → Except PlanError Title

/-- A way to make the executor of a script. There is no replacer where placeholders are not to be
replaced. -/
abbrev ExecutorMaker : Type :=
  Resource → Config → Option Replacer → Except PlanError Executor

/-- Reads the name of a resource by the scheme. -/
def NameReader.byFilename : NameReader := fun resource scheme repeatable =>
  scheme.read resource.filename repeatable

/-- Runs the text of the resource. -/
def ExecutorMaker.standard : ExecutorMaker := fun resource _ replacer =>
  .ok (.script resource replacer)

/-- The checksum that a policy gives to a resource. The policies on lines take the text without byte
order mark. -/
def ChecksumPolicy.resourceChecksum (policy : ChecksumPolicy) (files : FileTree)
    (resource : Resource) : Except PlanError Int32 :=
  match policy with
  | .rawBytes => (resource.bytes files).map checksumOfBytes
  | .lines | .trimmedLines => (resource.text files).map policy.textChecksum

/-- A resolver of SQL scripts. -/
structure SqlResolver where
  /-- What finds the scripts. -/
  scanner : Scanner
  /-- The configuration in force. -/
  issued : IssuedConfig := .standard
  /-- The only location, if the resolver is bound to one. -/
  location? : Option Location := none
  /-- What reads the names. -/
  readName : NameReader := .byFilename
  /-- What makes the executors. -/
  makeExecutor : ExecutorMaker := .standard
  /-- A replacer of the configuration in force, if one is shared. -/
  replacer? : Option Replacer := none

namespace SqlResolver

/-- The name of the resolver. -/
def name : String := "sql"

/-- A resolver bound to one location. -/
def forLocation (location : Location) (scanner : Scanner) (issued : IssuedConfig) : SqlResolver :=
  { scanner, issued, location? := some location }

/-- Share a replacer, which must be one of the configuration in force. -/
def withReplacer (r : SqlResolver) (replacer : Replacer) : SqlResolver :=
  { r with replacer? := some replacer }

/-- Put a configuration in force. A shared replacer is kept only if nothing changes. -/
def configure (r : SqlResolver) (issued : IssuedConfig) : SqlResolver :=
  { r with
    issued
    replacer? := if issued.revision = r.issued.revision then r.replacer? else none }

/-- The policy of the checksums. -/
def checksumPolicy (r : SqlResolver) : ChecksumPolicy := r.issued.config.checksumPolicy

/-- The replacer for the scripts of one pass; none if placeholders are not to be replaced. -/
def activeReplacer (r : SqlResolver) : Except PlanError (Option Replacer) :=
  if !r.issued.config.replacePlaceholders then .ok none
  else
    match r.replacer? with
    | some shared => .ok (some shared)
    | none => r.issued.config.replacer.map some

/-- The migration of a script. -/
def migration (r : SqlResolver) (files : FileTree) (replacer : Option Replacer)
    (scheme : NameScheme) (repeatable : Bool) (resource : Resource) :
    Except PlanError Migration := do
  let title ← r.readName resource scheme repeatable
  let checksum ← r.checksumPolicy.resourceChecksum files resource
  let executor ← r.makeExecutor resource r.issued.config replacer
  Migration.Draft.complete {
    version := title.version
    description := title.description
    script? := some resource.path
    checksum := some checksum
    kind := .sql
    physicalLocation? := some resource.physicalLocation
    executor? := some executor }

/-- What is reported of a script's migration. -/
def event (m : Migration) : Event := .resolvedSql m.label m.script (m.checksum.getD 0)

/-- The migration of a script, if it is no callback, with a report either way. -/
def visit (r : SqlResolver) (files : FileTree) (replacer : Option Replacer)
    (scheme : NameScheme) (repeatable : Bool) (resource : Resource) :
    ResolveM (Option Migration) := do
  if isCallbackName resource.filename scheme.suffix then
    ResolveM.log (.skippedCallback resource.path)
    return none
  let migration ← ResolveM.ofExcept (r.migration files replacer scheme repeatable resource)
  ResolveM.log (event migration)
  return some migration

/-- The migrations of one location that follow one name scheme. -/
def migrationsNamed (r : SqlResolver) (storage : Storage) (replacer : Option Replacer)
    (location : Location) (scheme : NameScheme) (repeatable : Bool) :
    ResolveM (List Migration) := do
  let resources ← r.scanner.scan storage location scheme.marker scheme.suffix
  let migrations ← resources.mapM (r.visit storage.files replacer scheme repeatable)
  return migrations.filterMap id

/-- The migrations of one location, the versioned ones first. -/
def migrationsIn (r : SqlResolver) (storage : Storage) (replacer : Option Replacer)
    (location : Location) : ResolveM (List Migration) := do
  let config := r.issued.config
  let versioned ← r.migrationsNamed storage replacer location config.versionedScheme false
  let repeatable ← r.migrationsNamed storage replacer location config.repeatableScheme true
  return versioned ++ repeatable

/-- The migrations of all locations, in the order of application. -/
def resolve (r : SqlResolver) (storage : Storage) : ResolveM (List Migration) := do
  let replacer ← ResolveM.ofExcept r.activeReplacer
  let locations ← r.issued.config.scope r.location?
  let found ← locations.mapM fun location =>
    (r.migrationsIn storage replacer location).mapError (.resolver name location.display)
  return Migration.sort found.flatten

/-- The resolver as one of several that share their settings. -/
def toResolver (r : SqlResolver) : Resolver :=
  ⟨name, fun settings storage => (r.configure settings.issued).resolve storage⟩

end SqlResolver

end SchemaPlan
