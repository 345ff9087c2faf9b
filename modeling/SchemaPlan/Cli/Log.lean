import SchemaPlan.Environment
import SchemaPlan.Trace

/-!
# Log settings

The threshold and the format of the log, which the environment sets. Asking for details on the
command line sets the threshold whatever the environment says. Names are read without regard to
case.
-/

namespace SchemaPlan.Cli

/-- From which level on events are logged. -/
inductive LogLevel where
  | trace
  | debug
  | info
  | warn
  | error
deriving DecidableEq, Repr

/-- The name of a threshold. -/
def LogLevel.name : LogLevel → String
  | trace => "trace"
  | debug => "debug"
  | info => "info"
  | warn => "warn"
  | error => "error"

/-- Whether events of a level are logged. -/
def LogLevel.admits : LogLevel → Level → Bool
  | trace, _ | debug, _ => true
  | info, level => level ≠ .debug
  | warn, level => level = .warn
  | error, _ => false

/-- How events are written. -/
inductive LogFormat where
  | compact
  | pretty
  | json
deriving DecidableEq, Repr

/-- The name of a format. -/
def LogFormat.name : LogFormat → String
  | compact => "compact"
  | pretty => "pretty"
  | json => "json"

/-- The threshold: details if they are asked for, else what the environment names, else warnings. -/
def chosenLevel (verbose : Bool) (env : Environment) : LogLevel :=
  if verbose then .debug
  else
    match (env "SLUICE_LOG_LEVEL").map String.toLower with
    | some "trace" => .trace
    | some "debug" => .debug
    | some "info" => .info
    | some "error" => .error
    | _ => .warn

/-- The format: what the environment names, else compact. -/
def chosenFormat (env : Environment) : LogFormat :=
  match (env "SLUICE_LOG_FORMAT").map String.toLower with
  | some "pretty" => .pretty
  | some "json" => .json
  | _ => .compact

end SchemaPlan.Cli
