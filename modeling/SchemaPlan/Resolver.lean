import SchemaPlan.Config
import SchemaPlan.Migration
import SchemaPlan.Storage.Scanner

/-!
# Resolvers

A resolver finds migrations of one kind. It is handed the shared settings, which it may use or
not, and the storage as it is at the time.
-/

namespace SchemaPlan

/-- What resolvers may know about the database. -/
structure Database where
  /-- The name of the dialect. -/
  dialect : String
  /-- The schema that migrations are applied to, if the dialect has schemas. -/
  schema : Option String := none
deriving DecidableEq, Repr

/-- What is handed to every resolver that takes part in a plan. -/
structure Settings where
  /-- The shared configuration. -/
  issued : IssuedConfig
  /-- The database, if it is known. -/
  database : Option Database := none
deriving DecidableEq

/-- A way to find migrations. -/
structure Resolver where
  /-- A short name, for messages. -/
  name : String
  /-- Find the migrations; a single bad artifact fails the whole call. -/
  resolve : Settings → Storage → ResolveM (List Migration)

/-- The locations that a resolver covers: the one it is bound to, or else all that are configured.
-/
def Config.scope (c : Config) : Option Location → ResolveM (List Location)
  | some location => return [location]
  | none => c.roots

end SchemaPlan
