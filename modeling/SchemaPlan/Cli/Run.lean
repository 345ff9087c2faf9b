import SchemaPlan.Cli.Arguments
import SchemaPlan.Cli.Style
import SchemaPlan.Config.Toml
import SchemaPlan.Plan.Composite

/-!
# Running commands

What a command prints and how it ends, as a function of the files and the environment. A failure
is shown on the error output below what was already printed. Migrations in conflict end with a
status of their own.
-/

namespace SchemaPlan.Cli

/-- Why a command failed. -/
inductive CommandError where
  /-- The configuration file cannot be used. -/
  | config (reason : String)
  /-- Loading, checking or resolving failed. -/
  | migration (e : PlanError)
deriving DecidableEq, Repr

namespace CommandError

/-- The text of a failure. -/
def message : CommandError → String
  | config reason => (PlanError.config reason).message
  | migration e => e.message

/-- The exit status: a conflict can be told apart from other failures. -/
def exitCode : CommandError → Nat
  | config _ => 1
  | migration e => if e.isConflict then 2 else 1

end CommandError

/-- What a command printed, and why it failed if it did. -/
structure Outcome where
  printed : String
  error? : Option CommandError := none

namespace Outcome

/-- The exit status. -/
def exitCode (o : Outcome) : Nat := (o.error?.map CommandError.exitCode).getD 0

/-- The standard output; below what was printed a blank line sets off a failure. -/
def stdout (o : Outcome) : String := if o.error?.isSome then o.printed ++ line "" else o.printed

/-- The error output. -/
def stderr (o : Outcome) : String := (o.error?.map fun e => failure e.message).getD ""

end Outcome

/-- A command's work, which leaves a trace and may fail. -/
abbrev CliM (α : Type) : Type := ExceptT CommandError Traced α

/-- The work of the resolvers as part of a command. -/
def lift {α : Type} (x : ResolveM α) : CliM α :=
  ExceptT.mk ⟨x.run.value.mapError .migration, x.run.steps⟩

/-! ### Loading -/

/-- The configuration file that is used where none is named, if it is there. -/
def defaultConfigFile : String := "sluice.toml"

/-- The configuration file to read: the one that is named, which must be there, or else the
default one if it is there. -/
def configFile? (files : FileTree) : Option String → Except CommandError (Option String)
  | some path =>
    if files.isFile path then .ok (some path)
    else .error (.config s!"Config file not found: {path}")
  | none => .ok (if files.isFile defaultConfigFile then some defaultConfigFile else none)

/-- The settings of the configuration file, or the default ones. -/
def readConfig (env : Environment) (files : FileTree) (path? : Option String) :
    Except CommandError Config := do
  match ← configFile? files path? with
  | some path => (Config.ofFile env path (files.read? path)).mapError .migration
  | none => return .standard

/-- The configuration to work with, checked. Locations on the command line replace the configured
ones. -/
def loadConfig (env : Environment) (files : FileTree) (path? : Option String)
    (locations : List String) : CliM Config := do
  let config ← liftM (readConfig env files path?)
  let config := if locations.isEmpty then config else { config with locations }
  lift config.check
  return config

/-- The plan of a configuration. -/
def planOf (files : FileTree) (config : Config) : CliM Plan := lift do
  let composite ← Composite.build { issued := ⟨1, config⟩ }
  composite.makePlan { files }

/-! ### Printing -/

/-- The first column of a plan. -/
def versionCell (m : Migration) : String := (m.version.map Version.text).getD "R"

/-- A text with blanks behind it, up to a width. -/
def padRight (width : Nat) (s : String) : String :=
  s ++ String.ofList (List.replicate (width - s.length) ' ')

/-- The line of a migration. -/
def row (width : Nat) (m : Migration) : String :=
  let checksum := (m.checksum.map fun c => s!"checksum {c.toInt}").getD "no checksum"
  line ("  " ++ padRight width (versionCell m) ++ "  " ++ m.description ++ "  " ++
    Style.dim.apply ("[" ++ m.kind.display ++ "]") ++ " " ++ Style.dim.apply checksum)

/-- The counts below a plan. -/
def summary (p : Plan) : String :=
  sectionTitle "Summary" ++ entry "Versioned" (toString p.versioned.length) ++
    entry "Repeatable" (toString p.repeatable.length) ++
    (p.latest.map fun v => entry "Latest" v.text).getD ""

/-- A plan as a table. -/
def table (p : Plan) (locations : List String) : String :=
  let opening :=
    header "Migration Plan" ++ entry "Locations" (", ".intercalate locations) ++ line ""
  if p.isEmpty then opening ++ warning "No migrations found"
  else
    let width := (p.migrations.map fun m => (versionCell m).length).foldl max 0
    opening ++ String.join (p.migrations.map (row width)) ++ line "" ++ summary p

/-- A plan in a format. -/
def showPlan (p : Plan) (locations : List String) : Format → String
  | .json => line p.toJson.render
  | .table => table p locations

/-! ### Commands -/

/-- The version of the program. -/
def programVersion : String := "0.3.0"

/-- Print the version of the program. -/
def showVersion : String :=
  header "Sluice" ++ entry "Version" programVersion ++ entry "Binary" "sluice-cli" ++
    entry "Build" "release" ++ line "" ++ sectionTitle "Components" ++
    entry "sluice-migrate" programVersion

/-- Print the plan; nothing is printed unless there is one. -/
def runResolve (env : Environment) (files : FileTree) (path? : Option String)
    (locations : List String) (format : Format) : Traced Outcome := do
  let work : CliM String := do
    let config ← loadConfig env files path? locations
    let plan ← planOf files config
    return showPlan plan config.locations format
  match ← work.run with
  | .ok text => return { printed := text }
  | .error e => return { printed := "", error? := some e }

/-- What is printed at the end of a check. -/
def verdict (p : Plan) : String :=
  line "" ++
    if p.isEmpty then warning "No migrations found"
    else success s!"{p.size} migrations resolved without conflicts"

/-- Check that there is a plan, step by step. -/
def runValidate (env : Environment) (files : FileTree) (path? : Option String)
    (locations : List String) : Traced Outcome := do
  let loading := header "Validate Migrations" ++ step 1 2 "Loading configuration..."
  match ← (loadConfig env files path? locations).run with
  | .error e => return { printed := loading, error? := some e }
  | .ok config =>
    let resolving := loading ++ step 2 2 "Resolving migrations..."
    match ← (planOf files config).run with
    | .error e => return { printed := resolving, error? := some e }
    | .ok plan => return { printed := resolving ++ verdict plan }

/-- Run a command line that has been read. -/
def Invocation.run (env : Environment) (files : FileTree) (i : Invocation) : Traced Outcome :=
  match i.command with
  | .resolve locations format => runResolve env files i.config? locations format
  | .validate locations => runValidate env files i.config? locations
  | .version => return { printed := showVersion }

/-- Read and run a command line. -/
def run (env : Environment) (files : FileTree) (args : List String) :
    Except Usage (Traced Outcome) :=
  (parse (env "SLUICE_CONFIG") args).map (Invocation.run env files)

end SchemaPlan.Cli
