import SchemaPlan.PlanError

/-!
# Results with a trace

Resolution reports what it does: it emits log events, asks resolvers and calls a scanner. `Traced`
pairs a value with the steps taken on the way to it, and `ResolveM` adds failure. The trace of a
failed computation is kept up to the failure. What a computation returns does not depend on its
trace: `result` takes the trace off, and turns each combinator of `ResolveM` into the same
combinator of `Except`.
-/

namespace SchemaPlan

/-- How much an event matters. -/
inductive Level where
  | debug
  | info
  | warn
deriving DecidableEq, Repr

/-- The name of a level. -/
def Level.name : Level → String
  | debug => "DEBUG"
  | info => "INFO"
  | warn => "WARN"

/-- Something worth logging. -/
inductive Event where
  /-- A location is configured twice. -/
  | duplicateLocation (location : String)
  /-- A location lies inside another one. -/
  | nestedLocation (location parent : String)
  /-- A location on disk is no directory. -/
  | missingDirectory (location : String)
  /-- A location on disk has been scanned. -/
  | scannedFiles (location front back : String) (count : Nat)
  /-- A location in memory has been scanned. -/
  | scannedEmbedded (location front back : String) (count : Nat)
  /-- A link to a directory is not followed. -/
  | skippedLink (path : String)
  /-- A callback script is no migration. -/
  | skippedCallback (script : String)
  /-- A script has become a migration. -/
  | resolvedSql (label script : String) (checksum : Int32)
  /-- A code unit has become a migration. -/
  | resolvedUnit (label script kind : String)
  /-- A composite resolver has been put together. -/
  | builtComposite (locations resolvers : Nat)
  /-- One resolver of a composite has finished. -/
  | resolverFinished (resolver : String) (count : Nat)
  /-- A migration has been found twice. -/
  | duplicateMigration (script kept discarded : String)
  /-- The plan is complete. -/
  | resolvedPlan (versioned repeatable : Nat) (latest : Option String)
deriving DecidableEq, Repr

namespace Event

/-- The level of an event. -/
def level : Event → Level
  | duplicateLocation .. | nestedLocation .. | missingDirectory .. => .warn
  | resolvedPlan .. => .info
  | _ => .debug

/-- The message of an event. -/
def message : Event → String
  | duplicateLocation .. => "Discarding duplicate location"
  | nestedLocation .. => "Discarding location as it is a sub-location of another location"
  | missingDirectory .. => "Skipping filesystem location (not found or not a directory)"
  | scannedFiles .. => "Scanned filesystem location"
  | scannedEmbedded .. => "Scanned embedded location"
  | skippedLink .. => "Skipping symlinked directory"
  | skippedCallback .. => "Skipping callback script"
  | resolvedSql .. => "Resolved SQL migration"
  | resolvedUnit .. => "Resolved code migration"
  | builtComposite .. => "Built composite migration resolver"
  | resolverFinished .. => "Resolver finished"
  | duplicateMigration .. => "Discarding duplicate migration"
  | resolvedPlan .. => "Resolved migrations"

/-- The named values of an event. -/
def fields : Event → List (String × String)
  | duplicateLocation location => [("location", location)]
  | nestedLocation location parent => [("location", location), ("parent", parent)]
  | missingDirectory location => [("location", location)]
  | scannedFiles location front back count | scannedEmbedded location front back count =>
    [("location", location), ("prefix", front), ("suffix", back), ("count", toString count)]
  | skippedLink path => [("path", path)]
  | skippedCallback script => [("script", script)]
  | resolvedSql label script checksum =>
    [("version", label), ("script", script), ("checksum", toString checksum.toInt)]
  | resolvedUnit label script kind => [("version", label), ("script", script), ("kind", kind)]
  | builtComposite locations resolvers =>
    [("locations", toString locations), ("resolvers", toString resolvers)]
  | resolverFinished resolver count => [("resolver", resolver), ("count", toString count)]
  | duplicateMigration script kept discarded =>
    [("script", script), ("kept", kept), ("discarded", discarded)]
  | resolvedPlan versioned repeatable latest =>
    [("versioned", toString versioned), ("repeatable", toString repeatable),
     ("latest", latest.getD "<none>")]

end Event

/-- One step of a computation that can be observed from outside. -/
inductive Step where
  /-- An event has been logged. -/
  | logged (event : Event)
  /-- A composite resolver has asked one of its resolvers. -/
  | resolverAsked (resolver : String)
  /-- A counted scanner has been called. -/
  | scannerCalled
deriving DecidableEq, Repr

/-- A value and the steps taken on the way to it. -/
structure Traced (α : Type) where
  value : α
  steps : List Step

namespace Traced

variable {α β : Type}

instance : Monad Traced where
  pure a := ⟨a, []⟩
  bind x f := ⟨(f x.value).value, x.steps ++ (f x.value).steps⟩

instance : LawfulMonad Traced := LawfulMonad.mk' Traced
  (fun x => by simp [Functor.map])
  (fun a f => by simp [bind, pure])
  (fun x f g => by simp [bind])

/-- The events among the steps. -/
def events (x : Traced α) : List Event :=
  x.steps.filterMap fun
    | .logged event => some event
    | .resolverAsked _ | .scannerCalled => none

/-- The number of calls of counted scanners. -/
def scannerCalls (x : Traced α) : Nat := x.steps.count .scannerCalled

end Traced

/-- A computation that leaves a trace and may fail. -/
abbrev ResolveM (α : Type) : Type := ExceptT PlanError Traced α

namespace ResolveM

variable {α β : Type}

/-- What a computation returns, without the trace. -/
def result (x : ResolveM α) : Except PlanError α := x.run.value

/-- Take one step. -/
def step (s : Step) : ResolveM Unit := ExceptT.mk ⟨.ok (), [s]⟩

/-- Log an event. -/
def log (event : Event) : ResolveM Unit := step (.logged event)

/-- Log some events, one after the other. -/
def logAll (events : List Event) : ResolveM Unit := ExceptT.mk ⟨.ok (), events.map .logged⟩

/-- A result without steps. -/
def ofExcept (x : Except PlanError α) : ResolveM α := ExceptT.mk ⟨x, []⟩

/-- Change the error of a failed computation; what succeeded stays as it is. -/
def mapError (f : PlanError → PlanError) (x : ResolveM α) : ResolveM α :=
  ExceptT.mk ⟨x.run.value.mapError f, x.run.steps⟩

@[simp] theorem result_pure (a : α) : result (pure a) = .ok a := rfl

@[simp] theorem result_throw (e : PlanError) : result (throw e : ResolveM α) = .error e := rfl

@[simp] theorem result_step (s : Step) : (step s).result = .ok () := rfl

@[simp] theorem result_log (event : Event) : (log event).result = .ok () := rfl

@[simp] theorem result_logAll (events : List Event) : (logAll events).result = .ok () := rfl

@[simp] theorem result_ofExcept (x : Except PlanError α) : (ofExcept x).result = x := rfl

@[simp] theorem result_mapError (f : PlanError → PlanError) (x : ResolveM α) :
    (x.mapError f).result = x.result.mapError f := rfl

@[simp] theorem result_bind (x : ResolveM α) (f : α → ResolveM β) :
    (x >>= f).result = x.result >>= fun a => (f a).result := by
  obtain ⟨value, steps⟩ := x
  cases value <;> rfl

@[simp] theorem result_map (f : α → β) (x : ResolveM α) : (f <$> x).result = f <$> x.result := by
  obtain ⟨value, steps⟩ := x
  cases value <;> rfl

/-- Going through a list, the results alone decide the result. -/
theorem result_mapM (f : α → ResolveM β) (xs : List α) :
    (xs.mapM f).result = xs.mapM fun x => (f x).result := by
  induction xs with
  | nil => rfl
  | cons x xs ih => simp [List.mapM_cons, ih]

end ResolveM

end SchemaPlan
