import SchemaPlan.JsonValue
import SchemaPlan.Location

/-!
# Locations in JSON

A location is kept in JSON as the text it is displayed as, and it is read from any text that is a
location descriptor.
-/

namespace SchemaPlan.Location

/-- Why a JSON value is no location. -/
inductive JsonError where
  /-- It is not a text. -/
  | notText
  /-- The text is no descriptor. -/
  | noDescriptor (cause : PlanError)
deriving DecidableEq, Repr

/-- A location as a JSON value. -/
def toJson (l : Location) : JsonValue := .text l.display

/-- Read a location from a JSON value. -/
def ofJson : JsonValue → Except JsonError Location
  | .text descriptor => (parse descriptor).mapError .noDescriptor
  | _ => .error .notText

end SchemaPlan.Location
