import SchemaPlan.Resolver
import SchemaPlan.Text.Quoted

/-!
# Resolvers by name

A configuration may name further resolvers. The registry holds a maker for each name that it may
use; a maker is given the configuration and may refuse it.
-/

namespace SchemaPlan

/-- A way to make a resolver for a configuration. -/
abbrev ResolverMaker : Type := Config → Except PlanError Resolver

/-- The makers of resolvers, by name. -/
structure Registry where
  makers : Dict ResolverMaker := Dict.empty

namespace Registry

/-- Register a maker, in place of one with the same name. -/
def register (registry : Registry) (name : String) (maker : ResolverMaker) : Registry :=
  ⟨registry.makers.insert name maker⟩

/-- Whether a name is registered. -/
def contains (registry : Registry) (name : String) : Bool := registry.makers.contains name

/-- The registered names, in ascending order. -/
def names (registry : Registry) : List String := registry.makers.keys

/-- The complaint about a name that is not registered. -/
def unknown (registry : Registry) (name : String) : PlanError :=
  match registry.names with
  | [] => .config s!"Unknown resolver '{name}' (no resolvers are registered)"
  | names =>
    let known := ", ".intercalate names
    .config s!"Unknown resolver '{name}' (registered: {known})"

/-- Make the resolver of a name. -/
def make (registry : Registry) (name : String) (c : Config) : Except PlanError Resolver :=
  match registry.makers.get? name with
  | some maker => maker c
  | none => .error (registry.unknown name)

/-- The registered names, for diagnostics. -/
def describe (registry : Registry) : String :=
  "ResolverRegistry \x7b names: " ++ Text.quotedList registry.names ++ " \x7d"

end Registry

end SchemaPlan
