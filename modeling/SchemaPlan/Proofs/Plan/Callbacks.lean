import SchemaPlan.Proofs.Plan.Defaults
import SchemaPlan.Proofs.Storage.Additions

/-!
# Callbacks and plans

A callback is left out before anything about it is read: a script before its name and its content, a
code unit before its title. So callbacks that are put between the resources in memory or between the
code units, wherever and with whatever in them, change nothing about what the default resolvers find
in a location (`foundAt_of_callbacks`), and nothing about the plan or the error that comes of it
(`answer_with_callbacks`).
-/

namespace SchemaPlan

/-! ### Code units -/

/-- Whether a code unit is a callback. -/
def CodeUnit.isCallback (u : CodeUnit) : Bool := isCallbackName u.name ""

/-- Each family of code units becomes that of another registry when callbacks are put in. -/
def CodeUnits.WithCallbacks (units units' : CodeUnits) : Prop :=
  ∀ kind, Selection.Interspersed CodeUnit.isCallback (units.ofKind kind) (units'.ofKind kind)

theorem CodeUnits.WithCallbacks.within_eq {units units' : CodeUnits}
    (h : units.WithCallbacks units') (kind : UnitKind) (l : Location) :
    units'.within kind l = units.within kind l := by
  refine (h kind).filter_eq fun u hu => ?_
  rw [CodeUnit.isCallback] at hu
  rw [hu, Bool.not_true, Bool.and_false]

/-! ### Scripts -/

/-- Two storages have the same files, and in memory the same resources apart from callbacks. -/
structure Storage.SameButCallbacks (c : Config) (storage storage' : Storage) : Prop where
  files : storage'.files = storage.files
  embedded : storage'.embedded.withoutCallbacks c = storage.embedded.withoutCallbacks c

namespace Storage.SameButCallbacks

variable {c : Config} {storage storage' : Storage} (h : Storage.SameButCallbacks c storage storage')
  (given : GivenScanner)

include h

theorem withoutCallbacks_memory :
    (given.memory storage').withoutCallbacks c = (given.memory storage).withoutCallbacks c := by
  cases given with
  | files | withoutEmbedded => rfl
  | embedded | standard => exact h.embedded

/-- The scripts of a scan are the same. -/
theorem map_scripts_scan (l : Location) (repeatable : Bool) :
    (given.scanner.scan storage' l (c.scheme repeatable).marker
        (c.scheme repeatable).suffix).result.map (SqlResolver.scripts (c.scheme repeatable)) =
      (given.scanner.scan storage l (c.scheme repeatable).marker
        (c.scheme repeatable).suffix).result.map (SqlResolver.scripts (c.scheme repeatable)) := by
  cases hl : l.isEmbedded with
  | false => rw [given.result_scan_of_files h.files hl]
  | true =>
    have hfound : ∀ storage : Storage, (given.scanner.scan storage l (c.scheme repeatable).marker
        (c.scheme repeatable).suffix).result.map (SqlResolver.scripts (c.scheme repeatable)) =
        .ok ((c.scanned ⟨{}, given.memory storage⟩ l repeatable).map
          (Bundle.resource (Bundle.base l))) := by
      intro storage
      rw [given.result_scan_of_embedded storage _ _ hl, Except.map,
        ← SqlResolver.scripts_found c ⟨{}, given.memory storage⟩]
    rw [hfound, hfound, Config.scanned_eq, Config.scanned_eq, h.withoutCallbacks_memory given]

end Storage.SameButCallbacks

/-- A resolver of scripts finds the same in a location. -/
theorem SqlResolver.foundIn_of_callbacks {r : SqlResolver} {given : GivenScanner}
    (hscanner : r.scanner = given.scanner) {storage storage' : Storage}
    (h : Storage.SameButCallbacks r.issued.config storage storage') (replacer : Option Replacer)
    (l : Location) : r.foundIn storage' replacer l = r.foundIn storage replacer l := by
  refine foundIn_congr h.files fun repeatable => ?_
  rw [hscanner]
  exact h.map_scripts_scan given l repeatable

/-! ### Plans -/

namespace CompositeParts

variable {parts : CompositeParts} {given : GivenScanner} {storage storage' : Storage}
  {units : CodeUnits}

/-- The default resolvers of a location find the same. -/
theorem foundAt_of_callbacks (hscanner : parts.scanner = given.scanner)
    (hstorage : Storage.SameButCallbacks parts.issued.config storage storage')
    (hunits : parts.units.WithCallbacks units) {replacer : Option Replacer}
    (hreplacer : Composite.sharedReplacer parts.issued.config = .ok replacer) (l : Location) :
    ({ parts with units }).foundAt storage' replacer l = parts.foundAt storage replacer l := by
  have hresolve : ∀ kind, (Composite.unitResolver { parts with units } kind l).resolve.result =
      (Composite.unitResolver parts kind l).resolve.result := fun kind =>
    result_resolve_unitResolver_congr (hunits.within_eq kind l) fun _ => rfl
  have hscripts : (Composite.scriptResolver { parts with units } replacer l).foundIn storage'
      replacer l = (Composite.scriptResolver parts replacer l).foundIn storage replacer l :=
    SqlResolver.foundIn_of_callbacks hscanner hstorage replacer l
  rw [foundAt_eq hreplacer, @foundAt_eq { parts with units } replacer hreplacer, hscripts,
    hresolve, hresolve]

/-- **Callbacks are invisible**: to add callbacks to the resources in memory and to the code units,
anywhere among the others and whatever is in them, changes neither the plan of the default resolvers
nor their error. -/
theorem answer_with_callbacks (hscanner : parts.scanner = given.scanner)
    (hdefaults : parts.DefaultsOnly) (hunits : parts.units.WithCallbacks units)
    {added added' : List (String × List UInt8)}
    (hadded : Selection.Interspersed (fun r => parts.issued.config.isCallbackPath r.1) added added')
    (files : FileTree) (memory : Bundle) :
    ({ parts with units }).answer ⟨files, memory.addAll added'⟩ =
      parts.answer ⟨files, memory.addAll added⟩ := by
  have hstorage : Storage.SameButCallbacks parts.issued.config ⟨files, memory.addAll added⟩
      ⟨files, memory.addAll added'⟩ :=
    ⟨rfl, Bundle.withoutCallbacks_addAll hadded rfl⟩
  have hdefaults' : ({ parts with units }).DefaultsOnly := ⟨hdefaults.unnamed, hdefaults.extras⟩
  rw [answer_of_defaultsOnly hdefaults, answer_of_defaultsOnly hdefaults']
  show parts.prepared >>= _ = parts.prepared >>= _
  cases hprepared : parts.prepared with
  | error e =>
    -- stated so that what would have come next need not be compared
    show Except.error e = Except.error e
    rfl
  | ok prepared =>
    obtain ⟨roots, replacer⟩ := prepared
    have hreplacer := (of_prepared_eq_ok hprepared).2
    have hfound : ({ parts with units }).foundByDefaults ⟨files, memory.addAll added'⟩ replacer
        roots = parts.foundByDefaults ⟨files, memory.addAll added⟩ replacer roots := by
      rw [foundByDefaults, foundByDefaults]
      split
      · rfl
      · exact Traversal.gather_congr fun l _ =>
          foundAt_of_callbacks hscanner hstorage hunits hreplacer l
    exact congrArg (· >>= Plan.ofFound) hfound

/-- Parts with a location in memory and a code unit. -/
def besideCallbacks : CompositeParts where
  issued := ⟨1, { Config.standard with locations := ["embedded:db"] }⟩
  scanner := .embedded
  units.code :=
    [{ package := ⟨.embedded, "db"⟩, name := "V2__Fill", scripts := [], origin := "Fill" }]

/-- The same code unit with a callback before it, which has a blank description. -/
def unitsWithCallback : CodeUnits where
  code :=
    [{ package := ⟨.embedded, "db"⟩, name := "afterMigrate", scripts := [],
       title := some ⟨none, " "⟩, origin := "Notify" },
     { package := ⟨.embedded, "db"⟩, name := "V2__Fill", scripts := [], origin := "Fill" }]

theorem answer_besideCallbacks :
    besideCallbacks.units.WithCallbacks unitsWithCallback ∧
      ({ besideCallbacks with units := unitsWithCallback }).answer
          ⟨{}, ({} : Bundle).addAll [("db/V1__Users.sql", [49]), ("db/beforeMigrate.sql", [255])]⟩ =
        besideCallbacks.answer ⟨{}, ({} : Bundle).addAll [("db/V1__Users.sql", [49])]⟩ := by
  have hunits : besideCallbacks.units.WithCallbacks unitsWithCallback := by
    intro kind
    cases kind with
    | code => exact .put (by decide) (.kept _ .nil)
    | statements => exact .nil
  have hscanner : besideCallbacks.scanner = GivenScanner.embedded.scanner := rfl
  exact ⟨hunits, answer_with_callbacks hscanner ⟨rfl, rfl⟩ hunits
    (.kept _ (.put (by decide) .nil)) {} {}⟩

end CompositeParts

end SchemaPlan
