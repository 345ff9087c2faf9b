import SchemaPlan.Distinct
import SchemaPlan.Location
import SchemaPlan.Trace

/-!
# The roots among some locations

Of the configured locations only the roots are scanned: a location that comes again is discarded,
and then each one that lies inside another configured one, because scanning that one covers it.
-/

namespace SchemaPlan.Location

/-- The locations without repetitions, in order of first appearance. -/
def distinct (ls : List Location) : List Location := Distinct.firsts (· = ·) ls

/-- The first of some locations that `l` lies strictly inside of. -/
def parent? (ls : List Location) (l : Location) : Option Location := ls.find? (·.encloses l)

/-- The locations that are left when repetitions and nested locations are discarded. -/
def roots (ls : List Location) : List Location :=
  let unique := distinct ls
  unique.filter fun l => (parent? unique l).isNone

/-- What is reported when the roots are taken: first the repetitions, then the nested locations,
each with the first location that holds it. -/
def discarded (ls : List Location) : List Event :=
  let unique := distinct ls
  (Distinct.copies (· = ·) ls).map (fun (_, l) => .duplicateLocation l.display) ++
    unique.filterMap fun l =>
      (parent? unique l).map fun parent => .nestedLocation l.display parent.display

/-- The roots among some locations, with warnings about the others. -/
def rootsM (ls : List Location) : ResolveM (List Location) := do
  ResolveM.logAll (discarded ls)
  return roots ls

/-- Read location descriptors, as long as each of them is one. -/
def parseAll (descriptors : List String) : Except PlanError (List Location) :=
  descriptors.mapM parse

/-- The roots among some descriptors, with warnings about the others. No warning is given when a
descriptor is no location. -/
def parseRoots (descriptors : List String) : ResolveM (List Location) := do
  rootsM (← ResolveM.ofExcept (parseAll descriptors))

@[simp] theorem result_rootsM (ls : List Location) : (rootsM ls).result = .ok (roots ls) := rfl

/-- Warnings aside, the roots are a function of the descriptors. -/
theorem result_parseRoots (descriptors : List String) :
    (parseRoots descriptors).result = (parseAll descriptors).map roots := by
  simp only [parseRoots, ResolveM.result_bind, ResolveM.result_ofExcept, result_rootsM]
  cases parseAll descriptors <;> rfl

end SchemaPlan.Location
