import SchemaPlan.Text.Search

/-!
# Environment variables in configuration texts

A reference `${NAME}`, where the name is an identifier, stands for the value of an environment
variable. The references of the text as written are taken in order; each one whose variable is set
is replaced everywhere in the text as it is by then, so that a value which holds a reference is
expanded when that reference comes later in the text as written. References to other variables
stay.
-/

namespace SchemaPlan

/-- The values of the environment variables that are set. -/
abbrev Environment : Type := String → Option String

namespace Environment

/-- The environment without bindings. -/
def empty : Environment := fun _ => none

/-- The environment of some variables; the first value of a name counts. -/
def ofList (bindings : List (String × String)) : Environment := fun name => bindings.lookup name

/-- Whether a character can begin the name of a variable. -/
def isNameStart (c : Char) : Bool := c.isAlpha || c = '_'

/-- Whether a character can follow in the name of a variable. -/
def isNameRest (c : Char) : Bool := c.isAlphanum || c = '_'

/-- The name in the reference that a text begins with. -/
def nameAt? (s : List Char) : Option (List Char) :=
  match s with
  | '$' :: '{' :: c :: cs =>
    if isNameStart c then
      match cs.dropWhile isNameRest with
      | '}' :: _ => some (c :: cs.takeWhile isNameRest)
      | _ => none
    else none
  | _ => none

/-- A reference to a variable. -/
def reference (name : List Char) : List Char := ['$', '{'] ++ name ++ ['}']

/-- The names referred to in a text, from left to right, after `skip` characters that belong to the
last reference. -/
def referencesFrom : Nat → List Char → List (List Char)
  | _, [] => []
  | skip + 1, _ :: cs => referencesFrom skip cs
  | 0, c :: cs =>
    match nameAt? (c :: cs) with
    | some name => name :: referencesFrom (name.length + 2) cs
    | none => referencesFrom 0 cs

/-- The names referred to in a text, from left to right. -/
def references (s : List Char) : List (List Char) := referencesFrom 0 s

/-- Replace the references to one variable, if it is set. -/
def expandOne (env : Environment) (s name : List Char) : List Char :=
  match env (String.ofList name) with
  | some value => Text.replaceAll (reference name) value.toList s
  | none => s

/-- Replace the references of a text by the values of the variables that are set. -/
def expand (env : Environment) (s : List Char) : List Char :=
  (references s).foldl (expandOne env) s

end Environment

end SchemaPlan
