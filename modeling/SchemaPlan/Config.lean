import SchemaPlan.Checksum.Policy
import SchemaPlan.Location.Roots
import SchemaPlan.NameScheme
import SchemaPlan.Replacer

/-!
# Configuration of the resolvers

The settings that all resolvers share, each with a default, and the check that they fit together.
Two kinds of migrations are told apart by their markers alone, so the markers must be nonempty and
must differ; the separator and, where placeholders are replaced, the marks around them must be
nonempty too; and every configured location must be one.
-/

namespace SchemaPlan

/-- The settings that all resolvers share. -/
structure Config where
  /-- The descriptors of the locations to scan. -/
  locations : List String := ["filesystem:db/migration"]
  /-- The marker of versioned migrations. -/
  versionedMarker : String := "V"
  /-- The marker of repeatable migrations. -/
  repeatableMarker : String := "R"
  /-- The boundary between version and description. -/
  separator : String := "__"
  /-- The end of the names of SQL scripts. -/
  suffix : String := ".sql"
  /-- What goes into the checksum of an SQL script. -/
  checksumPolicy : ChecksumPolicy := .standard
  /-- Whether only extra and named resolvers are used. -/
  skipDefaultResolvers : Bool := false
  /-- The names of further resolvers. -/
  resolvers : List String := []
  /-- Whether placeholders in SQL scripts are replaced. -/
  replacePlaceholders : Bool := true
  /-- The opening mark of a placeholder. -/
  placeholderOpening : String := "$\x7b"
  /-- The closing mark of a placeholder. -/
  placeholderClosing : String := "\x7d"
  /-- The values of placeholders by name. -/
  placeholders : Dict String := Dict.empty
deriving DecidableEq

namespace Config

/-- The default settings. -/
def standard : Config := {}

/-- The name scheme of versioned SQL scripts. -/
def versionedScheme (c : Config) : NameScheme := ⟨c.versionedMarker, c.separator, c.suffix⟩

/-- The name scheme of repeatable SQL scripts. -/
def repeatableScheme (c : Config) : NameScheme := ⟨c.repeatableMarker, c.separator, c.suffix⟩

/-- The replacer of the configured placeholders. -/
def replacer (c : Config) : Except PlanError Replacer :=
  Replacer.make c.placeholders c.placeholderOpening c.placeholderClosing

/-- The roots among the configured locations, with warnings about the others. -/
def roots (c : Config) : ResolveM (List Location) := Location.parseRoots c.locations

/-- The check of all settings but the locations. -/
def checkMarks (c : Config) : Except PlanError Unit :=
  if c.versionedMarker.isEmpty then .error (.config "sql_migration_prefix must not be empty")
  else if c.repeatableMarker.isEmpty then
    .error (.config "repeatable_sql_migration_prefix must not be empty")
  else if c.separator.isEmpty then .error (.config "sql_migration_separator must not be empty")
  else if c.versionedMarker = c.repeatableMarker then
    let both := s!"(both are '{c.versionedMarker}')"
    .error (.config
      s!"sql_migration_prefix and repeatable_sql_migration_prefix must differ {both}")
  else if c.replacePlaceholders &&
      (c.placeholderOpening.isEmpty || c.placeholderClosing.isEmpty) then
    .error (.config "placeholder_prefix and placeholder_suffix must not be empty")
  else .ok ()

/-- The check that the settings fit together. -/
def check (c : Config) : ResolveM Unit := do
  ResolveM.ofExcept c.checkMarks
  let _ ← c.roots

end Config

/-- A configuration as it was handed to a resolver. Handing out a configuration anew, even an
equal one, gives it a new revision; what a resolver derives from a configuration holds for its
revision. -/
structure IssuedConfig where
  /-- The number that tells apart the occasions on which a configuration was handed out. -/
  revision : Nat
  /-- The settings. -/
  config : Config
deriving DecidableEq

namespace IssuedConfig

/-- The default settings that a resolver has before it is handed any. -/
def standard : IssuedConfig := ⟨0, .standard⟩

end IssuedConfig

end SchemaPlan
