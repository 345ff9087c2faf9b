import SchemaPlan.Replacer
import SchemaPlan.Storage.Resource

/-!
# Executors

What applies a migration to a database. A script is loaded, and its placeholders are replaced, only
when it is run; a unit offers its statements one after the other. An execution stops at the first
script that the connection refuses.
-/

namespace SchemaPlan

/-- What a database answers to a script. -/
abbrev Connection : Type := String → Except PlanError Unit

/-- What applies a migration. -/
inductive Executor where
  /-- Runs the text of a resource, with placeholders replaced if there is a replacer. -/
  | script (resource : Resource) (replacer : Option Replacer)
  /-- Runs some statements in order. -/
  | statements (sql : List String) (inTransaction : Bool)
  /-- Runs nothing. -/
  | idle
deriving DecidableEq

/-- The course of an execution. -/
structure Execution where
  /-- The scripts that the connection was asked to run, in order. -/
  offered : List String
  /-- The scripts that the connection accepted, in order. -/
  applied : List String
  /-- How the execution ended. -/
  result : Except PlanError Unit

namespace Executor

/-- Whether the migration is to be wrapped in a transaction. -/
def inTransaction : Executor → Bool
  | statements _ inTransaction => inTransaction
  | _ => true

/-- Name the origin of a script in an error of its execution. -/
def locateError (physicalLocation : String) : PlanError → PlanError
  | .execution reason => .execution s!"{reason} ({physicalLocation})"
  | e => e

/-- The text of a resource as it is sent to the database. -/
def sqlOf (files : FileTree) (resource : Resource) (replacer : Option Replacer) :
    Except PlanError String := do
  let sql ← resource.text files
  match replacer with
  | some r => (r.replace sql).mapError (locateError resource.physicalLocation)
  | none => return sql

/-- Offer scripts to a connection until it refuses one. -/
def offer (connection : Connection) : List String → Execution
  | [] => ⟨[], [], .ok ()⟩
  | sql :: rest =>
    match connection sql with
    | .error e => ⟨[sql], [], .error e⟩
    | .ok () =>
      let later := offer connection rest
      ⟨sql :: later.offered, sql :: later.applied, later.result⟩

/-- An execution succeeds exactly when the connection accepts every script; then all were run. -/
theorem result_offer_eq_ok_iff (connection : Connection) (sql : List String) :
    (offer connection sql).result = .ok () ↔ ∀ s ∈ sql, connection s = .ok () := by
  induction sql with
  | nil => simp [offer]
  | cons s rest ih =>
    simp only [offer, List.forall_mem_cons]
    cases h : connection s with
    | error e => simp
    | ok u => simpa using ih

/-- What was accepted is a beginning of what was offered, and that is a beginning of the scripts. -/
theorem isPrefix_applied_offer (connection : Connection) (sql : List String) :
    (offer connection sql).applied <+: (offer connection sql).offered ∧
      (offer connection sql).offered <+: sql := by
  induction sql with
  | nil => simp [offer]
  | cons s rest ih =>
    simp only [offer]
    cases connection s with
    | error e => simp
    | ok u => simpa [List.cons_prefix_cons] using ih

/-- The scripts that an executor offers, in order. -/
def scripts (files : FileTree) : Executor → Except PlanError (List String)
  | script resource replacer => (sqlOf files resource replacer).map ([·])
  | statements sql _ => .ok sql
  | idle => .ok []

/-- Apply a migration. Where its script cannot be prepared the connection is not used. -/
def execute (files : FileTree) (connection : Connection) (executor : Executor) : Execution :=
  match executor.scripts files with
  | .ok sql => offer connection sql
  | .error e => ⟨[], [], .error e⟩

end Executor

end SchemaPlan
