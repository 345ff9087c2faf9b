/-!
# Errors of migration resolution

What can go wrong while migrations are found, read and ordered, with the text that a user sees. An
error of one artifact is wrapped once by the resolver that met it; `innermost` takes the wrapping
off again. Two migrations that claim the same place in the plan are a conflict.
-/

namespace SchemaPlan

/-- One of two migrations that claim the same place. -/
structure Offender where
  /-- The file or unit that the migration came from. -/
  location : String
  /-- The name of its kind. -/
  kind : String
deriving DecidableEq, Repr

/-- What can go wrong while resolving or running migrations. -/
inductive PlanError where
  /-- A file or directory could not be read. -/
  | io (path reason : String)
  /-- The name of a script or unit does not follow the name scheme. -/
  | invalidName (identifier reason : String)
  /-- A text is not a version. -/
  | invalidVersion (version reason : String)
  /-- A migration has a blank description. -/
  | missingDescription (migration : String)
  /-- The content of an artifact could not be decoded. -/
  | content (location reason : String)
  /-- A resolver failed while processing one of its locations. -/
  | resolver (name location : String) (source : PlanError)
  /-- Two distinct migrations have the same version. -/
  | versionConflict (version : String) (first second : Offender)
  /-- Two distinct repeatable migrations have the same description. -/
  | repeatableConflict (description : String) (first second : Offender)
  /-- A text is not a location. -/
  | invalidLocation (reason : String)
  /-- A setting is missing or contradicts another one. -/
  | config (reason : String)
  /-- A configuration text is not TOML, or one of its values has the wrong type. -/
  | toml (reason : String)
  /-- Preparing or running a script failed. -/
  | execution (reason : String)
deriving DecidableEq, Repr

namespace PlanError

/-- The two lines that name the offenders of a conflict. -/
def offenderLines (first second : Offender) : String :=
  s!"Offenders:\n-> {first.location} ({first.kind})\n-> {second.location} ({second.kind})"

/-- The text of an error. -/
def message : PlanError → String
  | io path reason => s!"I/O error at {path}: {reason}"
  | invalidName identifier reason => s!"Invalid migration name '{identifier}': {reason}"
  | invalidVersion version reason => s!"Invalid version '{version}': {reason}"
  | missingDescription migration => s!"Missing description for migration {migration}"
  | content location reason => s!"Unable to load content of {location}: {reason}"
  | resolver name location source =>
    s!"Unable to resolve {name} migrations in location {location}: {source.message}"
  | versionConflict version first second =>
    s!"Found more than one migration with version {version}\n{offenderLines first second}"
  | repeatableConflict description first second =>
    s!"Found more than one repeatable migration with description {description}\n" ++
      offenderLines first second
  | invalidLocation reason => s!"Invalid location: {reason}"
  | config reason => s!"Configuration error: {reason}"
  | toml reason => s!"Failed to parse configuration: {reason}"
  | execution reason => s!"Execution error: {reason}"

/-- Advice on how to mend an error, where there is any. -/
def help? : PlanError → Option String
  | invalidVersion .. => some "versions may only contain digits separated by '.' or '_'"
  | versionConflict .. => some "rename one of the migrations so every version is unique"
  | repeatableConflict .. =>
    some "repeatable migrations are identified by their description, which must be unique"
  | _ => none

/-- Whether two migrations claim the same place. A wrapped error is no conflict. -/
def isConflict : PlanError → Bool
  | versionConflict .. | repeatableConflict .. => true
  | _ => false

/-- The error inside all resolver wrappings. -/
def innermost : PlanError → PlanError
  | resolver _ _ source => source.innermost
  | e => e

/-- Whether an error is a resolver's wrapping of another one. -/
def isWrapped : PlanError → Bool
  | resolver .. => true
  | _ => false

theorem isWrapped_innermost (e : PlanError) : e.innermost.isWrapped = false := by
  induction e with
  | resolver _ _ _ ih => exact ih
  | _ => rfl

end PlanError

end SchemaPlan
