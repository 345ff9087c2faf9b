import SchemaPlan.PlanError
import SchemaPlan.Text.Blank
import SchemaPlan.Text.Search

/-!
# Locations

A location is a root below which migrations are looked for: a package of resources and code units
held in memory, written `embedded:db/migration`, or a directory on disk, written
`filesystem:db/migration` or without the scheme. Its path is normalised when the location is made:
an embedded path is a list of nonempty segments joined by `/`, where `.` separates as `/` does,
and a path on disk has no separator at its end unless it is nothing else.
-/

namespace SchemaPlan

/-- Where the artifacts of a location are kept. -/
inductive Medium where
  /-- In memory. -/
  | embedded
  /-- On disk. -/
  | filesystem
deriving DecidableEq, Repr

/-- The scheme that a location in a medium is written with. -/
def Medium.scheme : Medium → String
  | embedded => "embedded:"
  | filesystem => "filesystem:"

/-- The place of a medium in the order of locations. -/
def Medium.rank : Medium → Nat
  | embedded => 0
  | filesystem => 1

/-- A root below which migrations are looked for. -/
structure Location where
  /-- Where its artifacts are kept. -/
  medium : Medium
  /-- The normalised path. -/
  path : String
deriving DecidableEq, Repr

namespace Location

/-! ### Making locations -/

/-- The nonempty segments of an embedded path. -/
def segments (path : String) : List (List Char) :=
  (path.toList.splitOnP fun c => c = '/' ∨ c = '.').filter (!·.isEmpty)

/-- The embedded location of a path. -/
def embedded (path : String) : Location :=
  ⟨.embedded, String.ofList (['/'].intercalate (segments path))⟩

/-- Whether a character separates the segments of a path on disk. -/
def isSeparator (c : Char) : Bool := c = '/' || c = '\\'

/-- A path without the separators at its end; of a path of separators the first one is left. -/
def withoutTrailing (path : List Char) : List Char :=
  match (path.reverse.dropWhile isSeparator).reverse with
  | [] => path.take 1
  | trimmed => trimmed

/-- The location of a directory on disk. -/
def filesystem (path : String) : Except PlanError Location :=
  if path.isEmpty then .error (.invalidLocation "filesystem location must not be empty")
  else .ok ⟨.filesystem, String.ofList (withoutTrailing path.toList)⟩

/-- The scheme of a descriptor that has one: what stands before the first colon, if it takes more
than one byte, as a drive letter does not, and holds no separator. -/
def unknownScheme? (descriptor : List Char) : Option String :=
  match Text.cut? [':'] descriptor with
  | none => none
  | some (scheme, _) =>
    if (String.ofList scheme).utf8ByteSize > 1 && !scheme.any isSeparator then
      some (String.ofList scheme)
    else none

/-- Read a location descriptor; blanks around it do not count. -/
def parse (descriptor : String) : Except PlanError Location :=
  let text := Text.trimList descriptor.toList
  match Text.dropPrefix? Medium.embedded.scheme.toList text with
  | some path => .ok (embedded (String.ofList path))
  | none =>
    match Text.dropPrefix? Medium.filesystem.scheme.toList text with
    | some path => filesystem (String.ofList path)
    | none =>
      match unknownScheme? text with
      | none => filesystem (String.ofList text)
      | some scheme =>
        let shown := String.ofList text
        .error (.invalidLocation
          s!"unknown location prefix '{scheme}:' in '{shown}' (use 'embedded:' or 'filesystem:')")

/-! ### Properties -/

/-- A location as it is written. -/
def display (l : Location) : String := l.medium.scheme ++ l.path

/-- Whether the artifacts are kept in memory. -/
def isEmbedded (l : Location) : Bool := l.medium = .embedded

/-- Whether the artifacts are kept on disk. -/
def isFilesystem (l : Location) : Bool := l.medium = .filesystem

/-- Whether `b` lies strictly inside `a`. The embedded location of the empty path holds every other
embedded one. -/
def encloses (a b : Location) : Bool :=
  if a.medium ≠ b.medium ∨ a.path = b.path then false
  else if a.isEmbedded ∧ a.path = "" then true
  else
    match Text.dropPrefix? a.path.toList b.path.toList with
    | none => false
    | some rest => Text.startsWith ['/'] rest || Text.endsWith ['/'] a.path.toList

/-- Whether `b` is `a` or lies inside it. -/
def holds (a b : Location) : Bool := a = b || a.encloses b

/-- Compare locations by medium, then by path. -/
def cmp (a b : Location) : Ordering :=
  (compare a.medium.rank b.medium.rank).then (compare a.path b.path)

instance : Ord Location := ⟨cmp⟩

end Location

end SchemaPlan
