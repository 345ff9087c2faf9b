import SchemaPlan.JsonValue
import SchemaPlan.Version

/-!
# Versions in JSON

A version is kept in JSON as its text, and it is read from any text that is a version.
-/

namespace SchemaPlan.Version

/-- Why a JSON value is no version. -/
inductive JsonError where
  /-- It is not a text. -/
  | notText
  /-- The text is no version. -/
  | noVersion (cause : PlanError)
deriving DecidableEq, Repr

/-- A version as a JSON value. -/
def toJson (v : Version) : JsonValue := .text v.text

/-- Read a version from a JSON value. -/
def ofJson : JsonValue → Except JsonError Version
  | .text text => (parse text).mapError .noVersion
  | _ => .error .notText

end SchemaPlan.Version
