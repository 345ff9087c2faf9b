import SchemaPlan.Text.Search

/-!
# Command lines

How a command line is read. It consists of options, of a subcommand, and of options of the
subcommand; some options are understood on both sides. An option may be written in short or in
long form, its value may be attached or follow as the next argument, and short flags may be
joined. The value of an option that follows as an argument is looked at only when the next option
begins or the arguments end, so a mistake in between is reported before a bad value.
-/

namespace SchemaPlan.Cli

/-- Why a command line is not run. -/
inductive Usage where
  /-- Help is asked for. -/
  | help
  /-- The version is asked for. -/
  | version
  /-- There are no arguments. -/
  | noArguments
  /-- There are options, but there is no subcommand. -/
  | missingSubcommand
  /-- There is no subcommand of that name. -/
  | invalidSubcommand
  /-- An option has no value, or one that it does not take. -/
  | invalidValue
  /-- There is no such option, or the subcommand takes no such argument. -/
  | unknownArgument
  /-- A value is attached to an option that takes none. -/
  | tooManyValues
  /-- An option is given twice. -/
  | argumentConflict
deriving DecidableEq, Repr

/-- The exit status: asking for help or the version is no mistake. -/
def Usage.exitCode : Usage → Nat
  | help | version => 0
  | _ => 2

/-- How a plan is printed. -/
inductive Format where
  /-- As a table for people. -/
  | table
  /-- As JSON. -/
  | json
deriving DecidableEq, Repr

/-- The format of a name. -/
def Format.ofName? : String → Option Format
  | "text" => some table
  | "json" => some json
  | _ => none

/-- What is to be done. -/
inductive Command where
  /-- Print the plan. -/
  | resolve (locations : List String) (format : Format)
  /-- Check that there is a plan. -/
  | validate (locations : List String)
  /-- Print the version of the program. -/
  | version
deriving DecidableEq, Repr

/-- A command line that can be run. -/
structure Invocation where
  /-- The configuration file, if one is named. -/
  config? : Option String
  /-- Whether details are logged. -/
  verbose : Bool
  command : Command
deriving DecidableEq, Repr

/-! ### Options -/

/-- The parts of a command line that have options of their own. -/
inductive Stage where
  /-- Before the subcommand. -/
  | top
  /-- After the subcommand `resolve`. -/
  | resolve
  /-- After the subcommand `validate`. -/
  | validate
  /-- After the subcommand `version`. -/
  | version
deriving DecidableEq, Repr

/-- The subcommand of a name. -/
def Stage.ofName? : String → Option Stage
  | "resolve" => some resolve
  | "validate" => some validate
  | "version" => some version
  | _ => none

/-- The options. -/
inductive Flag where
  | config
  | verbose
  | location
  | format
  | help
  | version
deriving DecidableEq, Repr

namespace Flag

/-- The long form of an option, without the dashes. -/
def long : Flag → String
  | config => "config"
  | verbose => "verbose"
  | location => "location"
  | format => "format"
  | help => "help"
  | version => "version"

/-- The short form of an option, without the dash. -/
def short : Flag → Char
  | config => 'c'
  | verbose => 'v'
  | location => 'l'
  | format => 'f'
  | help => 'h'
  | version => 'V'

/-- Whether an option takes a value. -/
def takesValue : Flag → Bool
  | config | location | format => true
  | _ => false

/-- The options that are understood at a stage. -/
def atStage : Stage → List Flag
  | .top | .version => [config, verbose, help, version]
  | .validate => [config, verbose, location, help, version]
  | .resolve => [config, verbose, location, format, help, version]

end Flag

/-! ### Reading options -/

/-- What has been read at one stage. -/
structure Given where
  config? : Option String := none
  verbose : Bool := false
  locations : List String := []
  format? : Option Format := none
  /-- The option read last, whose value has not been looked at, with the value once it is there. -/
  pending? : Option (Flag × Option String) := none
deriving DecidableEq, Repr

namespace Given

/-- Take in an option that has no value. -/
def switch (g : Given) : Flag → Except Usage Given
  | .help => .error .help
  | .version => .error .version
  | .verbose => if g.verbose then .error .argumentConflict else .ok { g with verbose := true }
  | _ => .error .invalidValue

/-- Take in the value of an option. -/
def assign (g : Given) (flag : Flag) (value : String) : Except Usage Given :=
  match flag with
  | .config =>
    if g.config?.isSome then .error .argumentConflict
    else if value.isEmpty then .error .invalidValue
    else .ok { g with config? := some value }
  | .format =>
    if g.format?.isSome then .error .argumentConflict
    else
      match Format.ofName? value with
      | some format => .ok { g with format? := some format }
      | none => .error .invalidValue
  | .location => .ok { g with locations := g.locations ++ [value] }
  | flag => g.switch flag

/-- Look at the value of the option read last. -/
def settle (g : Given) : Except Usage Given :=
  match g.pending? with
  | none => .ok g
  | some (_, none) => .error .invalidValue
  | some (flag, some value) => { g with pending? := none }.assign flag value

/-- Whether the next argument is the value of an option. -/
def awaitsValue (g : Given) : Bool :=
  match g.pending? with
  | some (_, none) => true
  | _ => false

/-- Take an argument as the value of the option read last. -/
def supply (g : Given) (value : String) : Given :=
  { g with pending? := g.pending?.map fun (flag, _) => (flag, some value) }

/-- Begin an option that takes a value, attached or not. -/
def begin (g : Given) (flag : Flag) (attached? : Option String) : Except Usage Given := do
  let g ← g.settle
  match attached? with
  | some value => g.assign flag value
  | none => return { g with pending? := some (flag, none) }

/-- Take in an option in long form, given without its dashes. -/
def long (stage : Stage) (g : Given) (s : List Char) : Except Usage Given := do
  let (name, attached?) :=
    match Text.cut? ['='] s with
    | some (name, value) => (name, some (String.ofList value))
    | none => (s, none)
  match (Flag.atStage stage).find? (·.long.toList = name) with
  | none => throw .unknownArgument
  | some flag =>
    if flag.takesValue then g.begin flag attached?
    else if attached?.isSome then throw .tooManyValues
    else (← g.settle).switch flag

/-- What follows a short option, as its value. An equals sign may stand in between. -/
def attachedTo : List Char → Option String
  | [] => none
  | '=' :: value => some (String.ofList value)
  | value => some (String.ofList value)

/-- Take in joined options in short form, given without the dash. -/
def short (stage : Stage) (g : Given) : List Char → Except Usage Given
  | [] => .ok g
  | c :: cs =>
    match (Flag.atStage stage).find? (·.short = c) with
    | none => .error .unknownArgument
    | some flag =>
      if flag.takesValue then g.begin flag (attachedTo cs)
      else g.settle >>= fun g => g.switch flag >>= fun g => g.short stage cs

/-- What is said about an argument that belongs nowhere. After `--` even the name of a subcommand is
such an argument. -/
def misplaced (stage : Stage) (afterDashes : Bool) (arg : String) : Usage :=
  if stage ≠ .top then .unknownArgument
  else if afterDashes && (arg = "help" || (Stage.ofName? arg).isSome) then .unknownArgument
  else .invalidSubcommand

/-- What the arguments of one stage end with: a subcommand with its arguments, or nothing. -/
abbrev Rest : Type := Option (String × List String)

/-- Read the arguments of one stage. -/
def read (stage : Stage) (g : Given) : List String → Except Usage (Given × Rest)
  | [] => .ok (g, none)
  | arg :: args =>
    if !g.awaitsValue && stage = .top && (arg = "help" || (Stage.ofName? arg).isSome) then
      .ok (g, some (arg, args))
    else if arg = "--" then
      match args with
      | [] => .ok (g, none)
      | next :: _ => .error (misplaced stage true next)
    else
      match arg.toList with
      | '-' :: '-' :: s => g.long stage s >>= fun g => g.read stage args
      | '-' :: s@(_ :: _) => g.short stage s >>= fun g => g.read stage args
      | _ =>
        if g.awaitsValue then (g.supply arg).read stage args
        else .error (misplaced stage false arg)

/-- Look at the last value, and take the configuration file from the environment where none is
named. The flag tells whether the name comes from the environment. -/
def finish (g : Given) (fromEnvironment? : Option String) : Except Usage (Given × Bool) := do
  let g ← g.settle
  match g.config?, fromEnvironment? with
  | none, some path => return (← g.assign .config path, true)
  | _, _ => return (g, false)

end Given

/-! ### Reading a command line -/

/-- The command of a subcommand and its options. -/
def commandOf (stage : Stage) (g : Given) : Command :=
  match stage with
  | .resolve => .resolve g.locations (g.format?.getD .table)
  | .validate => .validate g.locations
  | .version | .top => .version

/-- What is said when help on a subcommand is asked for; there are no subcommands of subcommands. -/
def helpOn : List String → Usage
  | [] => .help
  | [name] => if name = "help" || (Stage.ofName? name).isSome then .help else .invalidSubcommand
  | _ => .invalidSubcommand

/-- The configuration file of two stages: the one that is named on the command line, the inner one
first, or else the one that comes from the environment. -/
def configOf (outer inner : Given × Bool) : Option String :=
  if inner.1.config?.isSome && !inner.2 then inner.1.config? else outer.1.config?

/-- Read a command line. The configuration file may also be named by the environment. -/
def parse (fromEnvironment? : Option String) (args : List String) : Except Usage Invocation := do
  let (g, rest) ← Given.read .top {} args
  match rest with
  | none =>
    let (g, _) ← g.finish fromEnvironment?
    if g.config?.isSome || g.verbose then throw .missingSubcommand else throw .noArguments
  | some (name, args) =>
    match Stage.ofName? name with
    | none => throw (helpOn args)
    | some stage =>
      let (inner, _) ← Given.read stage {} args
      let inner ← inner.finish fromEnvironment?
      let outer ← g.finish fromEnvironment?
      return ⟨configOf outer inner, outer.1.verbose || inner.1.verbose, commandOf stage inner.1⟩

end SchemaPlan.Cli
