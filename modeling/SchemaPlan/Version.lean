import SchemaPlan.PlanError
import SchemaPlan.Text.Search

/-!
# Versions

A version is a sequence of non-negative integers of any size, written in decimal with `.` or `_`
between them. Components are kept as numerals without leading zeros and compare as numbers: the
longer numeral is greater, and numerals of one length compare as text. A shorter version is padded
with zeros, so `1` and `1.0` are the same version, and `1.2` comes before `1.10`. A migration
without a version comes after every version.
-/

namespace SchemaPlan

/-- A parsed version. -/
structure Version where
  /-- The components as decimal numerals without leading zeros. -/
  components : List String
  /-- The version as written, with `.` between the components. -/
  text : String
deriving DecidableEq, Repr

namespace Version

/-! ### Reading -/

/-- The digits of a component without leading zeros; a component of zeros is `0`. -/
def numeral (digits : List Char) : List Char :=
  match digits.dropWhile (· = '0') with
  | [] => ['0']
  | withoutTrailingZeros => withoutTrailingZeros

/-- Read one component, as part of the version `text`. -/
def parseComponent (text : String) (token : List Char) : Except PlanError String :=
  if token.isEmpty then .error (.invalidVersion text "version contains an empty component")
  else if token.all Char.isDigit then .ok (String.ofList (numeral token))
  else
    let shown := String.ofList token
    .error (.invalidVersion text s!"component '{shown}' is not a non-negative integer")

/-- Read a version; the leftmost bad component decides the error. -/
def parse (text : String) : Except PlanError Version := do
  let canonical := Text.exchange '_' '.' text.toList
  if canonical.isEmpty then throw (.invalidVersion text "version is empty")
  let components ← (canonical.splitOnP (· == '.')).mapM (parseComponent text)
  return ⟨components, String.ofList canonical⟩

/-! ### Order -/

/-- Compare two numerals without leading zeros as numbers. -/
def compareNumerals (a b : String) : Ordering :=
  (compare a.length b.length).then (compare a b)

/-- Compare two sequences of numerals component by component, a missing one counting as zero. -/
def compareComponents (as bs : List String) : Ordering :=
  (as.zipWithAll (fun a b => compareNumerals (a.getD "0") (b.getD "0")) bs).foldr Ordering.then .eq

/-- Compare two versions numerically. -/
def cmp (a b : Version) : Ordering := compareComponents a.components b.components

instance : Ord Version := ⟨cmp⟩

/-- Whether two versions are numerically equal. -/
def same (a b : Version) : Bool := a.cmp b == .eq

/-- The components up to the last one that is not zero. Versions are numerically equal exactly when
these agree, so they are what a version is hashed by. -/
def withoutTrailingZeros (v : Version) : List String :=
  (v.components.reverse.dropWhile (· = "0")).reverse

/-- Compare optional versions; none comes after every version. -/
def compareOptional : Option Version → Option Version → Ordering
  | some a, some b => a.cmp b
  | some _, none => .lt
  | none, some _ => .gt
  | none, none => .eq

/-- Whether two optional versions are numerically equal, or both missing. -/
def sameOptional (a b : Option Version) : Bool := compareOptional a b == .eq

/-- The greatest of some versions, the last one among equal ones. -/
def greatest? : List Version → Option Version
  | [] => none
  | v :: vs => some (vs.foldl (fun best w => if (best.cmp w).isLE then w else best) v)

end Version

end SchemaPlan
