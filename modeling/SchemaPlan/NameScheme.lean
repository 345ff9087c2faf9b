import SchemaPlan.Text.Blank
import SchemaPlan.Title

/-!
# Names of migrations

A versioned script is named by a marker, a version, a separator, a description and a suffix
(`V1_2__Add_table.sql`), a repeatable one by the same without a version (`R__Refresh_view.sql`). The
separator is looked for from the left, so a description may hold it again. In the version `_` stands
for `.`, in the description for a space.
-/

namespace SchemaPlan

/-- Whether a file name begins with `front` and ends with `back`, without the two overlapping. -/
def hasAffixes (front back filename : String) : Bool :=
  match Text.dropPrefix? front.toList filename.toList with
  | some rest => Text.endsWith back.toList rest
  | none => false

/-- The marks by which the names of one kind of migration are read. -/
structure NameScheme where
  /-- The mark at the front of the name. -/
  marker : String
  /-- The boundary between version and description. -/
  separator : String
  /-- The end of the name that is no part of the description; may be empty. -/
  suffix : String
deriving DecidableEq, Repr

namespace NameScheme

/-- The scheme of versioned scripts where nothing else is configured. -/
def standard : NameScheme := ⟨"V", "__", ".sql"⟩

/-- Whether a file name has the marker in front and the suffix at the end. -/
def covers (scheme : NameScheme) (filename : String) : Bool :=
  hasAffixes scheme.marker scheme.suffix filename

/-- A name that follows the scheme, to be shown in messages. -/
def sample (scheme : NameScheme) (repeatable : Bool) : String :=
  let version := if repeatable then "" else "1_2"
  scheme.marker ++ version ++ scheme.separator ++ "Description" ++ scheme.suffix

/-- What a name says about its migration. The checks run from left to right, except that a blank
description is reported before anything about the version. -/
def read (scheme : NameScheme) (identifier : String) (repeatable : Bool) : Except PlanError Title :=
  let refuse (reason : String) := Except.error (PlanError.invalidName identifier reason)
  match Text.dropPrefix? scheme.marker.toList identifier.toList with
  | none => refuse s!"it must start with the configured prefix '{scheme.marker}'"
  | some unmarked =>
    let body := (Text.dropSuffix? scheme.suffix.toList unmarked).getD unmarked
    match Text.cut? scheme.separator.toList body with
    | none =>
      let sample := scheme.sample repeatable
      refuse s!"missing separator '{scheme.separator}' (it should look like this: {sample})"
    | some (version, rest) =>
      let description := Text.exchange '_' ' ' rest
      if description.all Text.isBlank then refuse "the description is empty"
      else if version.isEmpty then
        if repeatable then .ok ⟨none, String.ofList description⟩
        else
          let hint := s!"(it should look like this: {scheme.sample false})"
          refuse s!"a versioned migration must contain a version {hint}"
      else if repeatable then
        let hint := s!"(it should look like this: {scheme.sample true})"
        refuse s!"a repeatable migration cannot contain a version {hint}"
      else
        match Version.parse (String.ofList version) with
        | .ok version => .ok ⟨some version, String.ofList description⟩
        | .error e => refuse e.message

end NameScheme

end SchemaPlan
