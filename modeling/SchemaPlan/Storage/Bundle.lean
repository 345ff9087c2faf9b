import SchemaPlan.Dict
import SchemaPlan.Location
import SchemaPlan.NameScheme
import SchemaPlan.Storage.Resource
import SchemaPlan.Trace

/-!
# Embedded resources

Resources that are held in memory under paths with `/` between their segments. As the paths are
kept in order, those below a location are neighbours, and a scan reads them off as one range.
-/

namespace SchemaPlan

/-- Contents held in memory, by path. -/
structure Bundle where
  entries : Dict (List UInt8) := Dict.empty
deriving DecidableEq

namespace Bundle

/-- Add a resource, in place of one with the same path. Slashes at the front of the path do not
count. -/
def add (resources : Bundle) (path : String) (content : List UInt8) : Bundle :=
  ⟨resources.entries.insert (String.ofList (path.toList.dropWhile (· = '/'))) content⟩

/-- The number of resources. -/
def size (resources : Bundle) : Nat := resources.entries.size

/-- What the paths of all resources below a location begin with. -/
def base (location : Location) : String :=
  if location.path = "" then "" else location.path ++ "/"

/-- The resources whose path begins with `base`: they begin at the first path that is not before
`base` and end where the paths no longer begin with it. -/
def range (resources : Bundle) (base : String) : List (String × List UInt8) :=
  (resources.entries.toList.dropWhile fun (path, _) => path < base).takeWhile fun (path, _) =>
    Text.startsWith base.toList path.toList

/-- The resource of an entry whose path begins with `base`. -/
def resource (base : String) (entry : String × List UInt8) : Resource :=
  .inMemory (String.ofList (entry.1.toList.drop base.length))
    (Medium.embedded.scheme ++ entry.1) entry.2

/-- The resources below an embedded location whose names begin with `front` and end with `back`, by
path. -/
def found (resources : Bundle) (location : Location) (front back : String) : List Resource :=
  let inRange := resources.range (base location)
  (inRange.filter fun (path, _) => hasAffixes front back (lastSegment path)).map
    (resource (base location))

/-- Scan a location; there is nothing to be found unless it is an embedded one. -/
def scan (resources : Bundle) (location : Location) (front back : String) :
    ResolveM (List Resource) := do
  if !location.isEmbedded then return []
  let found := resources.found location front back
  ResolveM.log (.scannedEmbedded location.display front back found.length)
  return found

end Bundle

end SchemaPlan
