import SchemaPlan.Assoc

/-!
# TOML values and documents

The values of a TOML document, and how its statements build tables. A table remembers how it came
into being, because that decides what a later statement may add: a table made by a header or in
braces is complete, one that is only implied by the header of a table inside it may still get a
header of its own, and one made by dotted keys takes more dotted keys. Everything else that would
define a name twice is refused.
-/

namespace SchemaPlan.Toml

/-- How a table came into being. -/
inductive Origin where
  /-- By a header of its own. -/
  | header
  /-- By the header of a table inside it. -/
  | implied
  /-- By a dotted key. -/
  | dotted
  /-- Written in braces. -/
  | inline
deriving DecidableEq, Repr

/-- A value of a TOML document. -/
inductive Value where
  | string (text : String)
  | integer (n : Int)
  /-- A floating point number, as written. -/
  | float (literal : String)
  | boolean (b : Bool)
  /-- A date, a time or both, in normal form. -/
  | dateTime (text : String)
  /-- A list written in brackets. -/
  | array (items : List Value)
  | table (origin : Origin) (entries : List (String × Value))
  /-- An array of tables, each made by a header in double brackets. -/
  | tables (rows : List (List (String × Value)))

/-- The entries of a table, in order of definition. -/
abbrev Entries : Type := List (String × Value)

namespace Entries

/-- Define a key that has no value yet. -/
def define? (key : String) (value : Value) (entries : Entries) : Option Entries :=
  match entries.lookup key with
  | none => some (entries ++ [(key, value)])
  | some _ => none

/-- Define the key at the end of a dotted path. The tables on the way are made where they are
missing; those that are there must be open to dotted keys. A table that is only implied by a
header can be passed through, and the last table of an array too, but nothing is put into them. -/
def defineDotted? (path : List String) (key : String) (value : Value) (entries : Entries) :
    Option Entries :=
  match path with
  | [] => define? key value entries
  | name :: rest =>
    match entries.lookup name with
    | none => do
      let inner ← defineDotted? rest key value []
      return entries ++ [(name, .table .dotted inner)]
    | some (.table .dotted inner) => do
      return Assoc.set name (.table .dotted (← defineDotted? rest key value inner)) entries
    | some (.table .implied inner) =>
      if rest.isEmpty then none
      else do return Assoc.set name (.table .implied (← defineDotted? rest key value inner)) entries
    | some (.tables rows) =>
      if rest.isEmpty then none
      else do
        let last ← rows.getLast?
        let last ← defineDotted? rest key value last
        return Assoc.set name (.tables (rows.dropLast ++ [last])) entries
    | some _ => none

/-- Change the table that a header path leads to. Missing tables are made as implied ones; an
array of tables is entered at its last table. -/
def modifyAt? (path : List String) (change : Entries → Option Entries) (entries : Entries) :
    Option Entries :=
  match path with
  | [] => change entries
  | name :: rest =>
    match entries.lookup name with
    | none => do
      let inner ← modifyAt? rest change []
      return entries ++ [(name, .table .implied inner)]
    | some (.table .inline _) => none
    | some (.table origin inner) => do
      return Assoc.set name (.table origin (← modifyAt? rest change inner)) entries
    | some (.tables rows) => do
      let last ← rows.getLast?
      return Assoc.set name (.tables (rows.dropLast ++ [← modifyAt? rest change last])) entries
    | some _ => none

end Entries

/-- The left side of an assignment and its value: the tables on the way, and the key in the last. -/
structure Assignment where
  path : List String
  key : String
  value : Value

/-- A header: the tables on the way, and the name of the table in the last of them. -/
structure Header where
  path : List String
  key : String
  /-- Whether the header adds a table to an array of tables. -/
  isRow : Bool

/-- A statement of a document. -/
inductive Statement where
  | assign (a : Assignment)
  | header (h : Header)

/-- The assignments before the first header, and each header with the assignments below it. -/
def sectionsOf : List Statement → List Assignment × List (Header × List Assignment)
  | [] => ([], [])
  | .assign a :: rest =>
    let (first, sections) := sectionsOf rest
    (a :: first, sections)
  | .header h :: rest =>
    let (first, sections) := sectionsOf rest
    ([], (h, first) :: sections)

/-- Make the assignments of one table. -/
def assignAll? (assignments : List Assignment) (entries : Entries) : Option Entries :=
  assignments.foldlM (fun es a => es.defineDotted? a.path a.key a.value) entries

/-- Add the table of a header. A plain header may come once for a table, but after headers of tables
inside it. -/
def addSection? (document : Entries) (section_ : Header × List Assignment) : Option Entries :=
  let (header, assignments) := section_
  document.modifyAt? header.path fun parent =>
    match header.isRow, parent.lookup header.key with
    | false, none => do
      return parent ++ [(header.key, .table .header (← assignAll? assignments []))]
    | false, some (.table .implied inner) => do
      return Assoc.set header.key (.table .header (← assignAll? assignments inner)) parent
    | true, none => do
      return parent ++ [(header.key, .tables [← assignAll? assignments []])]
    | true, some (.tables rows) => do
      return Assoc.set header.key (.tables (rows ++ [← assignAll? assignments []])) parent
    | _, some _ => none

/-- The table that the statements of a document build, unless they contradict each other. -/
def build? (statements : List Statement) : Option Entries := do
  let (first, sections) := sectionsOf statements
  sections.foldlM addSection? (← assignAll? first [])

end SchemaPlan.Toml
