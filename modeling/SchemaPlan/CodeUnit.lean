import SchemaPlan.Callback
import SchemaPlan.Config
import SchemaPlan.Migration
import SchemaPlan.Text.Quoted

/-!
# Code units

Migrations that are written as code. A unit is registered under a package, an embedded location.
It either drives the connection itself or yields statements; both come down to scripts that are
offered to the connection one after the other. A unit may say itself what its version and
description are; else its name is read by the name scheme of SQL scripts, without their suffix.
-/

namespace SchemaPlan

/-- The families of code units. -/
inductive UnitKind where
  /-- The unit drives the connection itself. -/
  | code
  /-- The unit yields statements. -/
  | statements
deriving DecidableEq, Repr

/-- The name of the resolver of a family. -/
def UnitKind.name : UnitKind → String
  | code => "code"
  | statements => "statements"

/-- The kind of the migrations of a family. -/
def UnitKind.artifact : UnitKind → ArtifactKind
  | code => .code
  | statements => .statements

/-- A registered code unit. -/
structure CodeUnit where
  /-- The package that the unit is registered under. -/
  package : Location
  /-- The name of the unit. -/
  name : String
  /-- What the unit runs, in order. -/
  scripts : List String
  /-- What the unit says about itself; this comes before the name. -/
  title : Option Title := none
  /-- The checksum that the unit declares. -/
  checksum : Option Int32 := none
  /-- Whether the unit is to be wrapped in a transaction. -/
  inTransaction : Bool := true
  /-- Where the unit was registered, for messages. -/
  origin : String
deriving DecidableEq

namespace CodeUnit

/-- The package that a text stands for; it may begin with the embedded scheme. -/
def packageOf (text : String) : Location :=
  let path := (Text.dropPrefix? Medium.embedded.scheme.toList text.toList).getD text.toList
  .embedded (String.ofList path)

/-- The name of a unit's artifact. -/
def script (u : CodeUnit) : String :=
  if u.package.path = "" then u.name else u.package.path ++ "/" ++ u.name

/-- Read the name of a unit. The marker of repeatable migrations is tried first. -/
def readName (c : Config) (name : String) : Except PlanError Title :=
  if Text.startsWith c.repeatableMarker.toList name.toList then
    NameScheme.read ⟨c.repeatableMarker, c.separator, ""⟩ name true
  else if Text.startsWith c.versionedMarker.toList name.toList then
    NameScheme.read ⟨c.versionedMarker, c.separator, ""⟩ name false
  else
    let markers := s!"'{c.versionedMarker}' or '{c.repeatableMarker}'"
    .error (.invalidName name s!"code migration names must start with {markers}")

/-- What is known about the migration of a unit: what the unit says itself, with a description
that is not blank, or else what its name says. -/
def titleOf (c : Config) (u : CodeUnit) : Except PlanError Title :=
  match u.title with
  | none => readName c u.name
  | some title =>
    if Text.allBlank title.description then
      .error (.missingDescription ((title.version.map Version.text).getD u.name))
    else .ok title

/-- The migration of a unit. -/
def migration (c : Config) (kind : UnitKind) (u : CodeUnit) : Except PlanError Migration := do
  let title ← u.titleOf c
  Migration.Draft.complete {
    version := title.version
    description := title.description
    script? := some u.script
    checksum := u.checksum
    kind := kind.artifact
    physicalLocation? := some u.origin
    executor? := some (.statements u.scripts u.inTransaction) }

end CodeUnit

/-- The registered units, each family in the order of registration. -/
structure CodeUnits where
  code : List CodeUnit := []
  statements : List CodeUnit := []
deriving DecidableEq

namespace CodeUnits

/-- The units of one family. -/
def ofKind (units : CodeUnits) : UnitKind → List CodeUnit
  | .code => units.code
  | .statements => units.statements

/-- The number of units. -/
def size (units : CodeUnits) : Nat := units.code.length + units.statements.length

/-- The names of all units, for diagnostics. -/
def describe (units : CodeUnits) : String :=
  let code := Text.quotedList (units.code.map CodeUnit.name)
  let statements := Text.quotedList (units.statements.map CodeUnit.name)
  "CodeMigrations \x7b code: " ++ code ++ ", statements: " ++ statements ++ " \x7d"

/-- The units of one family that are registered in or below a location and are no callbacks. -/
def within (units : CodeUnits) (kind : UnitKind) (location : Location) : List CodeUnit :=
  (units.ofKind kind).filter fun u => location.holds u.package && !isCallbackName u.name ""

end CodeUnits

end SchemaPlan
