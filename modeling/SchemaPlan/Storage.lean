import SchemaPlan.Storage.Bundle
import SchemaPlan.Storage.FileTree

/-!
# Storage

The places in which resources are kept: files on disk, and a bundle that is held in memory.
-/

namespace SchemaPlan

/-- Where resources are looked for. -/
structure Storage where
  /-- The files on disk. -/
  files : FileTree := {}
  /-- The resources held in memory. -/
  embedded : Bundle := {}

end SchemaPlan
