import SchemaPlan.Cli.Log
import SchemaPlan.Cli.Run

/-!
# The program

Reads what a command needs from disk and from the environment, runs it, and prints what it
returns. A file tree is taken of the configuration file and of the directories that are to be
scanned; links to directories are kept as links, and links to files are taken for the files.
-/

namespace SchemaPlan.Main

open SchemaPlan.Cli

/-- What an action returns, if it does not fail. -/
def attempt? {α : Type} (action : IO α) : IO (Option α) := do
  match ← action.toBaseIO with
  | .ok a => return some a
  | .error _ => return none

/-- A file as a node; one that cannot be read is kept as a link to itself, which leads nowhere. -/
def fileNode (path : String) : IO Node := do
  match ← attempt? (IO.FS.readBinFile path) with
  | some content => return .file content.toList
  | none => return .link (lastSegment path)

/-- The names of the entries of a directory; none if a path is no directory that can be read. -/
def entryNames? (path : String) : IO (Option (List String)) :=
  attempt? do return (← (← IO.FS.realPath path).readDir).toList.map (·.fileName)

/-- Whether a path is a directory. -/
def isDirectory (path : String) : IO Bool := do return (← entryNames? path).isSome

/-- Where an entry of a directory really is. -/
def realPath? (path : String) : IO (Option String) := do
  return (← attempt? (IO.FS.realPath path)).map toString

/-- A directory as a node. An entry whose real path is not below that of the directory is a link. -/
partial def directoryNode (path : String) : IO Node := do
  let here := (← realPath? path).getD path
  let names := (← entryNames? path).getD []
  return .dir (← names.mapM fun name => do
    let inner := FileTree.join path name
    if !(← isDirectory inner) then return (name, ← fileNode inner)
    else if (← realPath? inner) == some (FileTree.join here name) then
      return (name, ← directoryNode inner)
    else return (name, .link "/"))

/-- A file tree with nothing but the working directory. -/
def emptyTree : IO FileTree := do
  let names := (FileTree.splitPath (toString (← IO.currentDir))).2.filter (· ≠ "")
  return { root := Node.put (.dir []) names (.dir []), workingDirectory := names }

/-- The file tree with what is at a path, if there is anything. -/
def addPath (files : FileTree) (path : String) : IO FileTree := do
  if ← isDirectory path then
    let files := files.makeDir path
    return files.putAt (← directoryNode path) (files.resolve? false path)
  match ← attempt? (IO.FS.readBinFile path) with
  | some content => return files.write path content.toList
  | none => return files

/-- The variables of some names. -/
def environmentOf (names : List String) : IO Environment := do
  let values ← names.mapM fun name => do return (← IO.getEnv name).map fun value => (name, value)
  return .ofList (values.filterMap id)

/-- The variables that set up the program itself. -/
def ownVariables : List String := ["SLUICE_CONFIG", "SLUICE_LOG_LEVEL", "SLUICE_LOG_FORMAT"]

/-- The variables that a configuration file refers to. -/
def referredVariables (files : FileTree) (path : String) : List String :=
  match (files.read? path).map Text.decodeText with
  | some (.ok text) => (Environment.references text.toList).map String.ofList
  | _ => []

/-- The file tree with the directories of some locations. -/
def addLocations (files : FileTree) (descriptors : List String) : IO FileTree :=
  match Location.parseAll descriptors with
  | .ok locations =>
    (locations.filter Location.isFilesystem).foldlM (fun files l => addPath files l.path) files
  | .error _ => return files

/-- The locations on a command line. -/
def locationsOf : Command → List String
  | .resolve locations _ | .validate locations => locations
  | .version => []

/-- Log the events that the threshold admits, in the order in which they came. -/
def printEvents (level : LogLevel) (events : List Event) : IO Unit :=
  (events.filter fun e => level.admits e.level).forM fun e =>
    let fields := e.fields.map fun (name, value) => s!"{name}={value}"
    IO.eprintln (" ".intercalate (e.level.name :: e.message :: fields))

/-- What a command line that is not run is answered with. -/
def usageText : Usage → String
  | .version => "sluice " ++ programVersion
  | .help | .noArguments =>
    "Usage: sluice [--config FILE] [--verbose] resolve|validate|version [options]"
  | .missingSubcommand => "error: a subcommand is required"
  | .invalidSubcommand => "error: unrecognized subcommand"
  | .invalidValue => "error: invalid value"
  | .unknownArgument => "error: unexpected argument"
  | .tooManyValues => "error: unexpected value"
  | .argumentConflict => "error: an argument cannot be used multiple times"

/-- Run a command. -/
def execute (own : Environment) (i : Invocation) : IO UInt32 := do
  let path := i.config?.getD defaultConfigFile
  let files ← addPath (← emptyTree) path
  let env ← environmentOf (ownVariables ++ referredVariables files path)
  let locations :=
    match locationsOf i.command, readConfig env files i.config? with
    | [], .ok config => config.locations
    | locations, _ => locations
  let files ← addLocations files locations
  let outcome := i.run env files
  printEvents (chosenLevel i.verbose own) outcome.events
  IO.print outcome.value.stdout
  IO.eprint outcome.value.stderr
  return outcome.value.exitCode.toUInt32

end SchemaPlan.Main

open SchemaPlan SchemaPlan.Cli SchemaPlan.Main in
/-- Run the command line. -/
def main (args : List String) : IO UInt32 := do
  let own ← environmentOf ownVariables
  match parse (own "SLUICE_CONFIG") args with
  | .ok i => execute own i
  | .error usage =>
    if usage.exitCode = 0 then IO.println (usageText usage) else IO.eprintln (usageText usage)
    return usage.exitCode.toUInt32
