import SchemaPlan.Config
import SchemaPlan.Environment
import SchemaPlan.Toml.Document
import SchemaPlan.Toml.Writer

/-!
# Configurations as TOML

A configuration is a flat table. References to environment variables are expanded before the text
is read. Every key may be missing, keys without a meaning are ignored, and a value of the wrong
type is an error. Writing gives every key, the placeholders as a table at the end.
-/

namespace SchemaPlan.Config

open Toml (Value Entries)

/-! ### Values of the keys -/

/-- A text. -/
def textOf? : Value → Option String
  | .string s => some s
  | _ => none

/-- A truth value. -/
def boolOf? : Value → Option Bool
  | .boolean b => some b
  | _ => none

/-- A list of texts. -/
def textsOf? : Value → Option (List String)
  | .array items => items.mapM textOf?
  | _ => none

/-- The name under which a date or time is the only entry of a table. -/
def dateTimeKey : String := "$__toml_private_datetime"

/-- A table of texts. A date or time counts as a table with its normal form as the one entry. -/
def dictOf? : Value → Option (Dict String)
  | .table _ entries => do
    return Dict.ofList (← entries.mapM fun (k, v) => (textOf? v).map (k, ·))
  | .dateTime text => some (Dict.ofList [(dateTimeKey, text)])
  | _ => none

/-- Whether a value is a table or list without content. -/
def isVoid : Value → Bool
  | .table _ entries => entries.isEmpty
  | .array items => items.isEmpty
  | _ => false

/-- A checksum policy, by its name or as a table with the name as the only key and nothing below. -/
def policyOf? : Value → Option ChecksumPolicy
  | .string name => ChecksumPolicy.ofName? name
  | .table _ [(name, v)] => if isVoid v then ChecksumPolicy.ofName? name else none
  | _ => none

/-- The value of a key, or the default if the key is missing. -/
def field {α : Type} (read? : Value → Option α) (key : String) (default_ : α) (entries : Entries) :
    Except PlanError α :=
  match entries.lookup key with
  | none => .ok default_
  | some v =>
    match read? v with
    | some a => .ok a
    | none => .error (.toml s!"invalid value for {key}")

/-! ### Reading -/

/-- The configuration of a table. -/
def ofEntries (e : Entries) : Except PlanError Config := do
  let c := Config.standard
  return {
    locations := ← field textsOf? "locations" c.locations e
    versionedMarker := ← field textOf? "sql_migration_prefix" c.versionedMarker e
    repeatableMarker := ← field textOf? "repeatable_sql_migration_prefix" c.repeatableMarker e
    separator := ← field textOf? "sql_migration_separator" c.separator e
    suffix := ← field textOf? "sql_migration_suffix" c.suffix e
    checksumPolicy := ← field policyOf? "checksum_policy" c.checksumPolicy e
    skipDefaultResolvers := ← field boolOf? "skip_default_resolvers" c.skipDefaultResolvers e
    resolvers := ← field textsOf? "resolvers" c.resolvers e
    replacePlaceholders := ← field boolOf? "placeholder_replacement" c.replacePlaceholders e
    placeholderOpening := ← field textOf? "placeholder_prefix" c.placeholderOpening e
    placeholderClosing := ← field textOf? "placeholder_suffix" c.placeholderClosing e
    placeholders := ← field dictOf? "placeholders" c.placeholders e }

/-- The configuration of a TOML text, with environment variables expanded first. -/
def ofToml (env : Environment) (content : String) : Except PlanError Config :=
  match Toml.read? (Environment.expand env content.toList) with
  | some entries => ofEntries entries
  | none => .error (.toml "the text is not a TOML document")

/-- The configuration of the bytes of a file. -/
def ofFile (env : Environment) (path : String) (content : Option (List UInt8)) :
    Except PlanError Config :=
  match content.map Text.decodeText with
  | some (.ok text) => ofToml env text
  | some (.error e) => .error (.io path e.message)
  | none => .error (.io path "no such file")

/-! ### Writing -/

/-- The lines of a configuration before its placeholders. -/
def writeSettings (c : Config) : List Char :=
  [("locations", Toml.writeArray c.locations),
   ("sql_migration_prefix", Toml.writeText c.versionedMarker),
   ("repeatable_sql_migration_prefix", Toml.writeText c.repeatableMarker),
   ("sql_migration_separator", Toml.writeText c.separator),
   ("sql_migration_suffix", Toml.writeText c.suffix),
   ("checksum_policy", Toml.writeText c.checksumPolicy.name),
   ("skip_default_resolvers", Toml.writeBool c.skipDefaultResolvers),
   ("resolvers", Toml.writeArray c.resolvers),
   ("placeholder_replacement", Toml.writeBool c.replacePlaceholders),
   ("placeholder_prefix", Toml.writeText c.placeholderOpening),
   ("placeholder_suffix", Toml.writeText c.placeholderClosing)].flatMap
    fun (key, value) => Toml.writeAssignment key value

/-- The table of placeholders of a configuration. -/
def writePlaceholders (c : Config) : List Char :=
  "\n[placeholders]\n".toList ++
    c.placeholders.toList.flatMap fun (key, value) =>
      Toml.writeAssignment key (Toml.writeText value)

/-- A configuration as a TOML text. -/
def toToml (c : Config) : String := String.ofList (c.writeSettings ++ c.writePlaceholders)

end SchemaPlan.Config
