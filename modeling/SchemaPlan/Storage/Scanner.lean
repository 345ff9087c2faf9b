import SchemaPlan.Storage

/-!
# Scanners

A scanner finds the resources below a location whose names have a given beginning and end, in
ascending order of their paths. There is one for directories on disk, one for embedded resources,
and ones for both. The directory scan enters real directories only; what it finds does not depend
on the order in which a directory lists its entries.
-/

namespace SchemaPlan

/-- A way to find resources: by location, and by beginning and end of the name. -/
structure Scanner where
  scan : Storage → Location → String → String → ResolveM (List Resource)

namespace FileTree

/-- The resource of a finding, if it is a file. -/
def Finding.resource? : Finding → Option Resource
  | .file relative path => some (.ofFile relative path)
  | .skippedLink _ | .unlisted _ => none

/-- What is reported of a finding. -/
def Finding.event? : Finding → Option Event
  | .file .. | .unlisted _ => none
  | .skippedLink path => some (.skippedLink path)

/-- The path of a directory that cannot be listed. -/
def Finding.unlistedPath? : Finding → Option String
  | .unlisted path => some path
  | .file .. | .skippedLink _ => none

/-- Scan a location; there is nothing to be found unless it is a directory on disk. The scan ends at
the first directory that cannot be listed. -/
def scan (files : FileTree) (location : Location) (front back : String) :
    ResolveM (List Resource) := do
  if !location.isFilesystem then return []
  match files.findings (hasAffixes front back) location.path with
  | none =>
    ResolveM.log (.missingDirectory location.display)
    return []
  | some findings =>
    let met := findings.takeWhile fun f => f.unlistedPath?.isNone
    ResolveM.logAll (met.filterMap Finding.event?)
    if let some path := findings.findSome? Finding.unlistedPath? then
      throw (.io path "the directory cannot be listed")
    let found := (findings.filterMap Finding.resource?).mergeSort fun a b => a.path ≤ b.path
    ResolveM.log (.scannedFiles location.display front back found.length)
    return found

end FileTree

namespace Scanner

/-- Finds files on disk. -/
def files : Scanner := ⟨fun storage => storage.files.scan⟩

/-- Finds embedded resources. -/
def embedded : Scanner := ⟨fun storage => storage.embedded.scan⟩

/-- Finds both, each in the locations of its medium. -/
def standard : Scanner where
  scan storage location :=
    match location.medium with
    | .embedded => storage.embedded.scan location
    | .filesystem => storage.files.scan location

/-- The standard scanner of a program that has no embedded resources. -/
def withoutEmbedded : Scanner := ⟨fun storage => standard.scan { storage with embedded := {} }⟩

/-- A scanner that leaves a step in the trace at each call. -/
def counted (scanner : Scanner) : Scanner where
  scan storage location front back := do
    ResolveM.step .scannerCalled
    scanner.scan storage location front back

end Scanner

end SchemaPlan
