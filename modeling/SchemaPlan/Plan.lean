import SchemaPlan.Distinct
import SchemaPlan.JsonValue
import SchemaPlan.Migration
import SchemaPlan.Trace

/-!
# Plans

A plan is the list of all migrations in the order of application, free of duplicates and
conflicts. It is made of what the resolvers found, one after the other: of duplicates the first is
kept, the rest is sorted, and two neighbours in one place are a conflict.
-/

namespace SchemaPlan

/-- All migrations in the order of application. -/
structure Plan where
  migrations : List Migration := []
deriving DecidableEq

namespace Plan

/-! ### Questions -/

/-- The number of migrations. -/
def size (p : Plan) : Nat := p.migrations.length

/-- Whether there are no migrations. -/
def isEmpty (p : Plan) : Bool := p.migrations.isEmpty

/-- The migrations with a version. -/
def versioned (p : Plan) : List Migration := p.migrations.filter (!·.isRepeatable)

/-- The migrations without a version. -/
def repeatable (p : Plan) : List Migration := p.migrations.filter (·.isRepeatable)

/-- The highest version. -/
def latest (p : Plan) : Option Version := p.versioned.getLast?.bind (·.version)

/-- The migration of a version, which counts by its numbers. -/
def find? (p : Plan) (version : Version) : Option Migration :=
  p.versioned.find? fun m => Version.sameOptional m.version (some version)

/-! ### Making a plan -/

/-- The conflict of two migrations in one place. -/
def conflict (first second : Migration) : PlanError :=
  match first.version with
  | some version => .versionConflict version.text first.offender second.offender
  | none => .repeatableConflict first.description first.offender second.offender

/-- The first two neighbours in one place, as a conflict. -/
def firstConflict? : List Migration → Option PlanError
  | [] => none
  | [_] => none
  | a :: b :: rest => if a.cmp b = .eq then some (conflict a b) else firstConflict? (b :: rest)

/-- The plan of some migrations, in the order in which they were found. -/
def ofFound (found : List Migration) : Except PlanError Plan :=
  let migrations := Migration.sort (Distinct.firsts Migration.same found)
  match firstConflict? migrations with
  | some e => .error e
  | none => .ok ⟨migrations⟩

/-- What is reported of the duplicates among some migrations. -/
def duplicates (found : List Migration) : List Event :=
  (Distinct.copies Migration.same found).map fun (kept, discarded) =>
    .duplicateMigration discarded.script kept.physicalLocation discarded.physicalLocation

/-- What is reported of a plan that is complete. -/
def event (p : Plan) : Event :=
  .resolvedPlan p.versioned.length p.repeatable.length (p.latest.map Version.text)

/-- The plan of some migrations, with reports about duplicates and about the plan. -/
def ofFoundM (found : List Migration) : ResolveM Plan := do
  ResolveM.logAll (duplicates found)
  let plan ← ResolveM.ofExcept (ofFound found)
  ResolveM.log plan.event
  return plan

/-- Reports aside, the plan is a function of the migrations. -/
theorem result_ofFoundM (found : List Migration) : (ofFoundM found).result = ofFound found := by
  simp only [ofFoundM, ResolveM.result_bind, ResolveM.result_logAll, ResolveM.result_ofExcept]
  cases ofFound found <;> rfl

end Plan

/-! ### Writing a plan -/

/-- A kind as it is written. -/
def ArtifactKind.toJson : ArtifactKind → JsonValue
  | sql => .text "sql"
  | code => .text "code"
  | statements => .text "statements"
  | custom name => .record [("custom", .text name)]

/-- A migration as it is written. -/
def Migration.toJson (m : Migration) : JsonValue :=
  .record
    [("version", .ofText? (m.version.map Version.text)),
     ("description", .text m.description),
     ("script", .text m.script),
     ("checksum", (m.checksum.map fun c => JsonValue.number c.toInt).getD .null),
     ("type", m.kind.toJson),
     ("physical_location", .text m.physicalLocation)]

/-- A plan as it is written. -/
def Plan.toJson (p : Plan) : JsonValue := .list (p.migrations.map Migration.toJson)

end SchemaPlan
