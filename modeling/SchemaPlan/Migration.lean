import SchemaPlan.Executor
import SchemaPlan.NameScheme

/-!
# Migrations

A migration that a resolver has found: what it is, where it came from, and what applies it.
Migrations with a version come first, by version, then the repeatable ones by description. Two
migrations that agree in version, description, script, checksum and kind are duplicates, wherever
they came from; migrations in one place of the order that are no duplicates contradict each other.
-/

namespace SchemaPlan

/-- What kind of artifact a migration came from. -/
inductive ArtifactKind where
  /-- An SQL script. -/
  | sql
  /-- A code unit that drives the connection itself. -/
  | code
  /-- A code unit that yields SQL statements. -/
  | statements
  /-- Something else, by a name of its own. -/
  | custom (name : String)
deriving DecidableEq, Repr

namespace ArtifactKind

/-- The name of a kind, as it is shown. -/
def display : ArtifactKind → String
  | sql => "SQL"
  | code => "CODE"
  | statements => "STATEMENTS"
  | custom name => name

/-- The place of a kind in the order of kinds. -/
def rank : ArtifactKind → Nat
  | sql => 0
  | code => 1
  | statements => 2
  | custom _ => 3

/-- Compare kinds in the order of their constructors, and custom ones by name. -/
def cmp : ArtifactKind → ArtifactKind → Ordering
  | custom a, custom b => compare a b
  | a, b => compare a.rank b.rank

end ArtifactKind

/-- A migration that a resolver has found. -/
structure Migration where
  /-- The version; a repeatable migration has none. -/
  version : Option Version
  /-- What the migration does, in words. -/
  description : String
  /-- The name of the artifact, which stays the same when the artifact moves with its location. -/
  script : String
  /-- The checksum of the content, if it is known. -/
  checksum : Option Int32
  /-- The kind of artifact. -/
  kind : ArtifactKind
  /-- Where the artifact came from, for messages. -/
  physicalLocation : String
  /-- What applies the migration. -/
  executor : Executor
deriving DecidableEq

namespace Migration

/-- Whether a migration has no version. -/
def isRepeatable (m : Migration) : Bool := m.version.isNone

/-- What a migration is called in messages. -/
def label (m : Migration) : String :=
  match m.version with
  | some version => version.text
  | none => s!"<< repeatable >> {m.description}"

/-- Compare the places of two migrations in the order of application. -/
def cmp (a b : Migration) : Ordering :=
  match Version.compareOptional a.version b.version with
  | .eq => if a.isRepeatable then compare a.description b.description else .eq
  | order => order

/-- Whether two migrations are duplicates. Versions count by their numbers. -/
def same (a b : Migration) : Bool :=
  Version.sameOptional a.version b.version && a.description = b.description &&
    a.script = b.script && a.checksum = b.checksum && a.kind = b.kind

/-- What duplicates agree in, with versions by their numbers. -/
def fingerprint (m : Migration) :
    Option (List String) × String × String × Option Int32 × ArtifactKind :=
  (m.version.map Version.withoutTrailingZeros, m.description, m.script, m.checksum, m.kind)

/-- Migrations in the order of application; those of one place keep their order. -/
def sort (migrations : List Migration) : List Migration :=
  migrations.mergeSort fun a b => (a.cmp b).isLE

/-- How a migration is named where two of them contradict each other. -/
def offender (m : Migration) : Offender := ⟨m.physicalLocation, m.kind.display⟩

/-! ### Drafts -/

/-- A migration of which some parts may still be missing. -/
structure Draft where
  version : Option Version := none
  description : String
  script? : Option String := none
  checksum : Option Int32 := none
  kind : ArtifactKind
  physicalLocation? : Option String := none
  executor? : Option Executor := none

/-- A part that may be missing, or the complaint that it is. -/
def Draft.require {α : Type} (part label : String) : Option α → Except PlanError α
  | some value => .ok value
  | none => .error (.config s!"{part} is required for migration {label}")

/-- Make a migration of a draft. The description must not be blank, and nothing but version and
checksum may be missing. -/
def Draft.complete (d : Draft) : Except PlanError Migration := do
  let label := (d.version.map Version.text).getD d.description
  if Text.allBlank d.description then throw (.missingDescription label)
  let script ← require "Script" label d.script?
  let physicalLocation ← require "Physical location" label d.physicalLocation?
  let executor ← require "Executor" label d.executor?
  return ⟨d.version, d.description, script, d.checksum, d.kind, physicalLocation, executor⟩

end Migration

end SchemaPlan
