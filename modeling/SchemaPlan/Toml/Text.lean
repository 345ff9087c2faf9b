import SchemaPlan.Text.Search

/-!
# TOML strings and keys

Reading the four kinds of strings and the three kinds of keys. Each reader takes the characters
after the opening quotes and gives the text it stands for and what follows the closing quotes. A
line end inside a multi-line string is read as a line feed.
-/

namespace SchemaPlan.Toml

/-- Put a character in front of the text that was read. -/
def consRead (c : Char) (read : Option (List Char × List Char)) : Option (List Char × List Char) :=
  read.map fun (text, rest) => (c :: text, rest)

/-- Whether a character may stand in a text as it is: a tab, or no control character. -/
def isPrintable (c : Char) : Bool := c = '\t' || (' ' ≤ c && c ≠ '\x7f')

/-- Whether a character can stand in a key without quotes. -/
def isBareKeyChar (c : Char) : Bool := c.isAlphanum || c = '_' || c = '-'

/-! ### Escapes -/

/-- The value of a hexadecimal digit. -/
def hexValue? (c : Char) : Option Nat :=
  if c.isDigit then some (c.toNat - '0'.toNat)
  else if 'a' ≤ c ∧ c ≤ 'f' then some (c.toNat - 'a'.toNat + 10)
  else if 'A' ≤ c ∧ c ≤ 'F' then some (c.toNat - 'A'.toNat + 10)
  else none

/-- The number that hexadecimal digits stand for. -/
def hexNumber? (digits : List Char) : Option Nat :=
  digits.foldlM (fun n c => (hexValue? c).map (16 * n + ·)) 0

/-- The character whose code point the first `count` characters give in hexadecimal. -/
def codePoint? (count : Nat) (s : List Char) : Option Char := do
  let digits := s.take count
  if digits.length < count then none
  let n ← hexNumber? digits
  if n.isValidChar then some (Char.ofNat n) else none

/-- The character that an escape stands for and the number of characters it takes, given what
follows the backslash. -/
def escape? (s : List Char) : Option (Char × Nat) :=
  match s with
  | [] => none
  | c :: rest =>
    match c with
    | 'b' => some ('\x08', 1)
    | 't' => some ('\t', 1)
    | 'n' => some ('\n', 1)
    | 'f' => some ('\x0c', 1)
    | 'r' => some ('\r', 1)
    | '"' => some ('"', 1)
    | '\\' => some ('\\', 1)
    | 'u' => (codePoint? 4 rest).map (·, 5)
    | 'U' => (codePoint? 8 rest).map (·, 9)
    | _ => none

/-! ### Strings on one line -/

/-- Read a string in double quotes, after passing over `skip` characters of an escape. -/
def readBasicFrom : Nat → List Char → Option (List Char × List Char)
  | _, [] => none
  | skip + 1, _ :: cs => readBasicFrom skip cs
  | 0, c :: cs =>
    if c = '"' then some ([], cs)
    else if c = '\\' then
      match escape? cs with
      | some (e, count) => consRead e (readBasicFrom count cs)
      | none => none
    else if isPrintable c then consRead c (readBasicFrom 0 cs)
    else none

/-- Read a string in single quotes. -/
def readLiteral : List Char → Option (List Char × List Char)
  | [] => none
  | c :: cs =>
    if c = '\'' then some ([], cs)
    else if isPrintable c then consRead c (readLiteral cs)
    else none

/-! ### Strings on several lines -/

/-- The number of characters in the line end that a text begins with. -/
def lineEndLength (s : List Char) : Nat :=
  match s with
  | '\n' :: _ => 1
  | '\r' :: '\n' :: _ => 2
  | _ => 0

/-- The number of blanks and line ends that a text begins with. -/
def marginLength : List Char → Nat
  | '\r' :: '\n' :: cs => marginLength cs + 2
  | c :: cs => if c = ' ' ∨ c = '\t' ∨ c = '\n' then marginLength cs + 1 else 0
  | [] => 0

/-- The number of characters after a backslash that ends its line, up to the next character that is
neither a blank nor a line end. -/
def continuation? (s : List Char) : Option Nat :=
  let blanks := s.takeWhile fun c => c = ' ' || c = '\t'
  let rest := s.drop blanks.length
  if lineEndLength rest = 0 then none else some (blanks.length + marginLength rest)

/-- The end of a multi-line string, given a text that begins with at least three closing quotes:
up to two more quotes before the closing ones belong to the string. -/
def closing? (quote : Char) (s : List Char) : Option (List Char × List Char) :=
  let count := (s.takeWhile (· = quote)).length
  if count < 3 then none
  else
    let inside := min (count - 3) 2
    some (List.replicate inside quote, s.drop (inside + 3))

/-- Read a multi-line string in double quotes, after passing over `skip` characters. -/
def readMultiBasicFrom : Nat → List Char → Option (List Char × List Char)
  | _, [] => none
  | skip + 1, _ :: cs => readMultiBasicFrom skip cs
  | 0, c :: cs =>
    if c = '"' then
      match closing? '"' (c :: cs) with
      | some found => some found
      | none => consRead '"' (readMultiBasicFrom 0 cs)
    else if c = '\\' then
      match continuation? cs with
      | some count => readMultiBasicFrom count cs
      | none =>
        match escape? cs with
        | some (e, count) => consRead e (readMultiBasicFrom count cs)
        | none => none
    else if c = '\n' then consRead '\n' (readMultiBasicFrom 0 cs)
    else if c = '\r' then
      match cs with
      | '\n' :: _ => readMultiBasicFrom 0 cs
      | _ => none
    else if isPrintable c then consRead c (readMultiBasicFrom 0 cs)
    else none

/-- Read a multi-line string in single quotes. -/
def readMultiLiteral : List Char → Option (List Char × List Char)
  | [] => none
  | c :: cs =>
    if c = '\'' then
      match closing? '\'' (c :: cs) with
      | some found => some found
      | none => consRead '\'' (readMultiLiteral cs)
    else if c = '\n' then consRead '\n' (readMultiLiteral cs)
    else if c = '\r' then
      match cs with
      | '\n' :: _ => readMultiLiteral cs
      | _ => none
    else if isPrintable c then consRead c (readMultiLiteral cs)
    else none

/-- A text without the line end it begins with. -/
def dropLineEnd (s : List Char) : List Char := s.drop (lineEndLength s)

/-! ### Any string, any key -/

/-- Read a string of any kind. -/
def readString (s : List Char) : Option (List Char × List Char) :=
  match s with
  | '"' :: '"' :: '"' :: rest => readMultiBasicFrom 0 (dropLineEnd rest)
  | '"' :: rest => readBasicFrom 0 rest
  | '\'' :: '\'' :: '\'' :: rest => readMultiLiteral (dropLineEnd rest)
  | '\'' :: rest => readLiteral rest
  | _ => none

/-- Read a key, bare or quoted on one line. -/
def readKey (s : List Char) : Option (List Char × List Char) :=
  match s with
  | '"' :: rest => readBasicFrom 0 rest
  | '\'' :: rest => readLiteral rest
  | _ =>
    match s.takeWhile isBareKeyChar with
    | [] => none
    | bare => some (bare, s.dropWhile isBareKeyChar)

end SchemaPlan.Toml
