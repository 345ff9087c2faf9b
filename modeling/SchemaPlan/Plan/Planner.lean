import SchemaPlan.Plan.Composite

/-!
# Planners

A planner makes the plan of a composite resolver once: as soon as a pass has succeeded its plan is
kept and given again without asking any resolver. A pass that failed leaves nothing behind.
-/

namespace SchemaPlan

/-- A composite resolver and the plan that it has made, once it has made one. -/
structure Planner where
  composite : Composite
  plan? : Option Plan := none

namespace Planner

/-- The plan, and the planner as it is afterwards. -/
def resolve (p : Planner) (storage : Storage) : Traced (Except PlanError Plan × Planner) :=
  match p.plan? with
  | some plan => return (.ok plan, p)
  | none => do
    match ← (p.composite.makePlan storage).run with
    | .ok plan => return (.ok plan, { p with plan? := some plan })
    | .error e => return (.error e, p)

/-- A plan that has been made is given again, and nothing else happens. -/
theorem resolve_of_eq_some {p : Planner} {plan : Plan} (h : p.plan? = some plan)
    (storage : Storage) : p.resolve storage = pure (.ok plan, p) := by
  simp only [resolve, h]

/-- Without a plan the resolvers are asked, and a failure changes nothing. -/
theorem value_resolve_of_eq_none {p : Planner} (h : p.plan? = none) (storage : Storage) :
    (p.resolve storage).value =
      match (p.composite.makePlan storage).result with
      | .ok plan => (.ok plan, { p with plan? := some plan })
      | .error e => (.error e, p) := by
  simp only [resolve, h, ResolveM.result, bind]
  cases (p.composite.makePlan storage).run.value <;> rfl

end Planner

end SchemaPlan
