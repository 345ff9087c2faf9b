import SchemaPlan.Dict
import SchemaPlan.PlanError
import SchemaPlan.Text.Search

/-!
# Placeholders in scripts

A placeholder is an opening mark, a name and a closing mark on one line (`${schema}`). From the
left, each occurrence of the opening mark takes the shortest name of at least one character that
the closing mark follows; where there is none the search goes on one character later. Values are
inserted as they are and not searched again. A script with a name that has no value is refused,
with all such names. The marks must not be empty, and there is a limit to their length.
-/

namespace SchemaPlan

/-- A piece of a script. -/
inductive Segment where
  /-- A character that belongs to no placeholder. -/
  | plain (c : Char)
  /-- A placeholder, by its name. -/
  | placeholder (name : List Char)
deriving DecidableEq, Repr

/-- The marks around a placeholder's name, and the values of the known names. -/
structure Replacer where
  /-- The values by name. -/
  values : Dict String
  /-- The opening mark. -/
  opening : String
  /-- The closing mark. -/
  closing : String
deriving DecidableEq

namespace Replacer

/-- The size in bytes of the automaton that finds placeholders: 32 for each state, of which there is
one for each character of the marks and seven more, and 64 for the characters that a name may hold
and for the places where the name and the whole begin and end. -/
def automatonSize (opening closing : String) : Nat :=
  32 * (opening.length + closing.length + 7) + 64

/-- The greatest size of an automaton, ten mebibytes. -/
def maxAutomatonSize : Nat := 10 * 1024 * 1024

/-- A replacer with the given marks, which must not be empty, nor too long for an automaton. -/
def make (values : Dict String) (opening closing : String) : Except PlanError Replacer :=
  if opening.isEmpty || closing.isEmpty then
    .error (.config "placeholder prefix and suffix must not be empty")
  else if maxAutomatonSize < automatonSize opening closing then
    .error (.config "invalid placeholder delimiters: compiled regex exceeded size limit")
  else .ok ⟨values, opening, closing⟩

/-- The shortest nonempty beginning of a line that `closing` follows. -/
def nameBefore? (closing : List Char) : List Char → Option (List Char)
  | [] => none
  | c :: cs =>
    if c = '\r' ∨ c = '\n' then none
    else if Text.startsWith closing cs then some [c]
    else (nameBefore? closing cs).map (c :: ·)

/-- The name of the placeholder that a text begins with. -/
def nameAt? (opening closing s : List Char) : Option (List Char) :=
  (Text.dropPrefix? opening s).bind (nameBefore? closing)

/-- The pieces of a text, from left to right, after `skip` characters that belong to the last
placeholder. -/
def segmentsFrom (opening closing : List Char) : Nat → List Char → List Segment
  | _, [] => []
  | skip + 1, _ :: cs => segmentsFrom opening closing skip cs
  | 0, c :: cs =>
    match nameAt? opening closing (c :: cs) with
    | some name =>
      .placeholder name ::
        segmentsFrom opening closing (opening.length + name.length + closing.length - 1) cs
    | none => .plain c :: segmentsFrom opening closing 0 cs

/-- The pieces of a script. -/
def segments (r : Replacer) (sql : List Char) : List Segment :=
  segmentsFrom r.opening.toList r.closing.toList 0 sql

/-- What stands for a piece in the script that is run; nothing for a name without a value. -/
def render (r : Replacer) : Segment → List Char
  | .plain c => [c]
  | .placeholder name =>
    match r.values.get? (String.ofList name) with
    | some value => value.toList
    | none => []

/-- The name of a placeholder that has no value. -/
def missingName? (r : Replacer) : Segment → Option String
  | .plain _ => none
  | .placeholder name =>
    if r.values.contains (String.ofList name) then none else some (String.ofList name)

/-- The names without a value, each once and in ascending order. -/
def missing (r : Replacer) (pieces : List Segment) : List String :=
  (Dict.ofList ((pieces.filterMap r.missingName?).map fun name => (name, ()))).keys

/-- A script with every placeholder replaced by its value. -/
def replace (r : Replacer) (sql : String) : Except PlanError String :=
  let pieces := r.segments sql.toList
  match r.missing pieces with
  | [] => .ok (String.ofList (pieces.flatMap r.render))
  | names =>
    let listed := ", ".intercalate names
    .error (.execution
      s!"No value provided for placeholder(s): {listed}. Check your configuration!")

/-- Skipping characters is dropping them. -/
theorem segmentsFrom_eq_drop (opening closing : List Char) (skip : Nat) (s : List Char) :
    segmentsFrom opening closing skip s = segmentsFrom opening closing 0 (s.drop skip) := by
  induction skip generalizing s with
  | zero => rfl
  | succ n ih =>
    cases s with
    | nil => simp [segmentsFrom]
    | cons c cs => simp [segmentsFrom, ih]

end Replacer

end SchemaPlan
