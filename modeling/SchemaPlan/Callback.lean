import SchemaPlan.Text.Search

/-!
# Callbacks

Some names are reserved for scripts that run at fixed points of a migration. These callbacks are no
migrations themselves, wherever they are found and whatever they hold.
-/

namespace SchemaPlan

/-- The reserved base names of callback scripts. -/
def callbackNames : List String :=
  ["beforeMigrate", "beforeEachMigrate", "afterEachMigrate", "afterMigrate", "beforeClean",
   "afterClean", "beforeInfo", "afterInfo", "beforeValidate", "afterValidate", "beforeBaseline",
   "afterBaseline", "beforeRepair", "afterRepair"]

/-- Whether a file name, with the suffix taken off if it is there, is that of a callback. -/
def isCallbackName (filename suffix : String) : Bool :=
  let base := (Text.dropSuffix? suffix.toList filename.toList).getD filename.toList
  callbackNames.contains (String.ofList base)

end SchemaPlan
