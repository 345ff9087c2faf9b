import SchemaPlan.Toml.Scalar
import SchemaPlan.Toml.Text

/-!
# Reading TOML documents

A document is a list of statements, one a line: assignments of values to dotted keys, and headers of
tables. Values nest in arrays and inline tables up to a fixed depth, and a dotted key has a limited
number of parts. Reading gives the table that the statements build; it fails where the text is no
document or its statements contradict each other.
-/

namespace SchemaPlan.Toml

/-- How deep arrays and inline tables may nest, and how many parts a dotted key may have. -/
def maxDepth : Nat := 79

/-! ### Space between tokens -/

/-- A text without the spaces and tabs in front. -/
def skipSpaces (s : List Char) : List Char := s.dropWhile fun c => c = ' ' || c = '\t'

/-- A text without the comment in front. -/
def skipComment (s : List Char) : List Char :=
  match s with
  | '#' :: rest => rest.dropWhile isPrintable
  | _ => s

/-- What follows the end of a line, before which only spaces and a comment may stand. -/
def endLine? (s : List Char) : Option (List Char) :=
  match skipComment (skipSpaces s) with
  | [] => some []
  | '\n' :: rest => some rest
  | '\r' :: '\n' :: rest => some rest
  | _ => none

/-- A text without the spaces, line ends and comments in front; `inComment` tells whether it begins
inside a comment. -/
def skipTrivia (inComment : Bool) (s : List Char) : List Char :=
  match s with
  | [] => []
  | '\r' :: '\n' :: rest => skipTrivia false rest
  | '\n' :: rest => skipTrivia false rest
  | c :: rest =>
    if inComment then
      if isPrintable c then skipTrivia true rest else c :: rest
    else if c = '#' then skipTrivia true rest
    else if c = ' ' ∨ c = '\t' then skipTrivia false rest
    else c :: rest

/-! ### Keys and values -/

/-- Read a dotted key of at most `parts` parts, with the spaces around each. -/
def readPath (parts : Nat) (s : List Char) : Option (List String × List Char) :=
  match parts with
  | 0 => none
  | more + 1 => do
    let (name, s) ← readKey (skipSpaces s)
    match skipSpaces s with
    | '.' :: rest =>
      let (names, s) ← readPath more rest
      return (String.ofList name :: names, s)
    | rest => return ([String.ofList name], rest)

/-- A dotted key as the tables on the way and the key in the last of them. -/
def splitPath? (names : List String) : Option (List String × String) :=
  names.getLast?.map (names.dropLast, ·)

mutual

/-- Read a value; `depth` is how deep it may nest, and `fuel` bounds the number of steps. -/
def readValue (fuel depth : Nat) (s : List Char) : Option (Value × List Char) :=
  match fuel with
  | 0 => none
  | fuel + 1 =>
    match s with
    | '"' :: _ | '\'' :: _ => do
      let (text, rest) ← readString s
      return (.string (String.ofList text), rest)
    | '[' :: rest =>
      match depth with
      | 0 => none
      | depth + 1 => do
        let (items, rest) ← readItems fuel depth (skipTrivia false rest)
        return (.array items, rest)
    | '{' :: rest =>
      match depth with
      | 0 => none
      | depth + 1 =>
        match skipSpaces rest with
        | '}' :: rest => some (.table .inline [], rest)
        | rest => do
          let (entries, rest) ← readPairs fuel depth [] rest
          return (.table .inline entries, rest)
    | _ => readScalar s

/-- Read the items of an array up to its closing bracket. -/
def readItems (fuel depth : Nat) (s : List Char) : Option (List Value × List Char) :=
  match fuel with
  | 0 => none
  | fuel + 1 =>
    match s with
    | ']' :: rest => some ([], rest)
    | _ => do
      let (item, s) ← readValue fuel depth s
      match skipTrivia false s with
      | ',' :: rest =>
        let (items, rest) ← readItems fuel depth (skipTrivia false rest)
        return (item :: items, rest)
      | ']' :: rest => return ([item], rest)
      | _ => none

/-- Read the entries of an inline table up to its closing brace, after `entries`. -/
def readPairs (fuel depth : Nat) (entries : Entries) (s : List Char) :
    Option (Entries × List Char) :=
  match fuel with
  | 0 => none
  | fuel + 1 => do
    let (names, s) ← readPath maxDepth s
    let (path, key) ← splitPath? names
    let (value, s) ← readValue fuel depth (skipSpaces (← mark? '=' s))
    let entries ← entries.defineDotted? path key value
    match skipSpaces s with
    | ',' :: rest => readPairs fuel depth entries rest
    | '}' :: rest => return (entries, rest)
    | _ => none

end

/-! ### Statements -/

/-- Read a header, given what follows its opening bracket. -/
def readHeader (isRow : Bool) (s : List Char) : Option (Statement × List Char) := do
  let (names, s) ← readPath maxDepth s
  let (path, key) ← splitPath? names
  let s ← mark? ']' s
  let s ← if isRow then mark? ']' s else some s
  return (.header ⟨path, key, isRow⟩, ← endLine? s)

/-- Read an assignment. -/
def readAssignment (s : List Char) : Option (Statement × List Char) := do
  let (names, s) ← readPath maxDepth s
  let (path, key) ← splitPath? names
  let s := skipSpaces (← mark? '=' s)
  let (value, s) ← readValue (s.length + 1) maxDepth s
  return (.assign ⟨path, key, value⟩, ← endLine? s)

/-- Read the statements of a text; `fuel` bounds the number of lines. -/
def readStatements (fuel : Nat) (s : List Char) : Option (List Statement) :=
  match fuel with
  | 0 => none
  | fuel + 1 =>
    match skipSpaces s with
    | [] => some []
    | '#' :: rest => do readStatements fuel (← endLine? ('#' :: rest))
    | '\n' :: rest => readStatements fuel rest
    | '\r' :: '\n' :: rest => readStatements fuel rest
    | '[' :: '[' :: rest => do
      let (statement, rest) ← readHeader true rest
      return statement :: (← readStatements fuel rest)
    | '[' :: rest => do
      let (statement, rest) ← readHeader false rest
      return statement :: (← readStatements fuel rest)
    | rest => do
      let (statement, rest) ← readAssignment rest
      return statement :: (← readStatements fuel rest)

/-- A text without the byte order mark in front. -/
def dropByteOrderMark (s : List Char) : List Char :=
  match s with
  | '\ufeff' :: rest => rest
  | _ => s

/-- Read a document. -/
def read? (s : List Char) : Option Entries := do
  let s := dropByteOrderMark s
  build? (← readStatements (s.length + 1) s)

end SchemaPlan.Toml
