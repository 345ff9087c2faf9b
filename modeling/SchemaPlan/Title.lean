import SchemaPlan.Version

/-!
# Titles

What a migration is called: the version, unless the migration is repeatable, and the description.
-/

namespace SchemaPlan

/-- What a name or a unit says about a migration. -/
structure Title where
  /-- The version; a repeatable migration has none. -/
  version : Option Version
  /-- The description. -/
  description : String
deriving DecidableEq, Repr

namespace Title

/-- A migration with a version. -/
def versioned (version description : String) : Except PlanError Title := do
  return ⟨some (← Version.parse version), description⟩

/-- A migration without a version. -/
def repeatable (description : String) : Title := ⟨none, description⟩

end Title

end SchemaPlan
