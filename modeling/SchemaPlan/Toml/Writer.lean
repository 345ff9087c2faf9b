import SchemaPlan.Toml.Text

/-!
# Writing TOML

The written form of texts, keys and arrays. A text is written in double quotes where that needs no
escape, else in single quotes where they can hold it, else on several lines where that needs no
escape, else in single quotes on several lines, and only then with escapes: on several lines if it
holds a line feed, and on one line if not. The form on several lines opens with a line feed of its
own if the text holds one. A key is bare where it can be, and else quoted on one line by the same
preference.
-/

namespace SchemaPlan.Toml

/-! ### What a text needs -/

/-- Whether a character can only be written as an escape: a control character other than tab and
line feed. -/
def isControl (c : Char) : Bool := !isPrintable c && c ≠ '\n'

/-- The length of the longest run of `c` in a text, where `run` counts those in front of it. -/
def longestRunFrom (c : Char) (run : Nat) : List Char → Nat
  | [] => run
  | d :: ds => if d = c then longestRunFrom c (run + 1) ds else max run (longestRunFrom c 0 ds)

/-- The length of the longest run of `c` in a text. -/
def longestRun (c : Char) (s : List Char) : Nat := longestRunFrom c 0 s

/-- The ways to write a text. -/
inductive Style where
  /-- In double quotes on one line. -/
  | basic
  /-- In single quotes on one line. -/
  | literal
  /-- In double quotes on several lines. -/
  | multiBasic
  /-- In single quotes on several lines. -/
  | multiLiteral
deriving DecidableEq, Repr

/-- The way in which a text is written. -/
def styleOf (s : List Char) : Style :=
  let controls := s.any isControl
  let backslashes := s.contains '\\'
  let newlines := s.contains '\n'
  let doubles := longestRun '"' s
  let singles := longestRun '\'' s
  if !controls && !backslashes && doubles = 0 && !newlines then .basic
  else if !controls && singles = 0 && !newlines then .literal
  else if !controls && !backslashes && doubles ≤ 2 then .multiBasic
  else if !controls && singles ≤ 2 then .multiLiteral
  else if newlines then .multiBasic
  else .basic

/-! ### Texts -/

/-- A hexadecimal digit. -/
def hexDigit (n : Nat) : Char := if n < 10 then Char.ofNat (n + 48) else Char.ofNat (n + 55)

/-- The four hexadecimal digits of a small number. -/
def hexDigits (n : Nat) : List Char :=
  [hexDigit (n / 4096 % 16), hexDigit (n / 256 % 16), hexDigit (n / 16 % 16), hexDigit (n % 16)]

/-- The escape of a character that cannot stand in double quotes; none for one that can. -/
def escapeOf? (c : Char) : Option (List Char) :=
  match c with
  | '\x08' => some ['\\', 'b']
  | '\t' => some ['\\', 't']
  | '\n' => some ['\\', 'n']
  | '\x0c' => some ['\\', 'f']
  | '\r' => some ['\\', 'r']
  | '"' => some ['\\', '"']
  | '\\' => some ['\\', '\\']
  | _ => if isPrintable c then none else some (['\\', 'u'] ++ hexDigits c.toNat)

/-- A character inside double quotes on one line. -/
def writeBasicChar (c : Char) : List Char := (escapeOf? c).getD [c]

/-- The inside of double quotes on several lines, where `quotes` counts the double quotes in front:
line feeds stand as they are, and of three double quotes in a row the third is escaped. -/
def writeMultiFrom (quotes : Nat) : List Char → List Char
  | [] => []
  | c :: cs =>
    if c = '\n' then '\n' :: writeMultiFrom 0 cs
    else if c = '"' then
      if quotes < 2 then '"' :: writeMultiFrom (quotes + 1) cs
      else ['\\', '"'] ++ writeMultiFrom 0 cs
    else writeBasicChar c ++ writeMultiFrom 0 cs

/-- What follows the opening quotes of a text on several lines: a line feed if the text itself holds
one, so that its first line starts at the margin as the others do. A reader drops it. -/
def leadingBreak (s : List Char) : List Char := if s.contains '\n' then ['\n'] else []

/-- The written form of a text in a given style. -/
def writeAs (style : Style) (s : List Char) : List Char :=
  match style with
  | .basic => ['"'] ++ s.flatMap writeBasicChar ++ ['"']
  | .literal => ['\''] ++ s ++ ['\'']
  | .multiBasic => ['"', '"', '"'] ++ leadingBreak s ++ writeMultiFrom 0 s ++ ['"', '"', '"']
  | .multiLiteral => ['\'', '\'', '\''] ++ leadingBreak s ++ s ++ ['\'', '\'', '\'']

/-- The written form of a text. -/
def writeText (s : String) : List Char := writeAs (styleOf s.toList) s.toList

/-! ### Keys, arrays and assignments -/

/-- The written form of a key. -/
def writeKey (key : String) : List Char :=
  let s := key.toList
  let escapes := s.any (!isPrintable ·)
  if !s.isEmpty && s.all isBareKeyChar then s
  else if !escapes && !s.contains '\\' && !s.contains '"' then writeAs .basic s
  else if !escapes && !s.contains '\'' then writeAs .literal s
  else writeAs .basic s

/-- The written form of an array of texts: one item a line, unless there is at most one. -/
def writeArray (items : List String) : List Char :=
  match items with
  | [] => ['[', ']']
  | [item] => ['['] ++ writeText item ++ [']']
  | _ =>
    let lines := items.flatMap fun item => "    ".toList ++ writeText item ++ [',', '\n']
    ['[', '\n'] ++ lines ++ [']']

/-- The written form of a truth value. -/
def writeBool (b : Bool) : List Char := if b then "true".toList else "false".toList

/-- The line that assigns a written value to a key. -/
def writeAssignment (key : String) (value : List Char) : List Char :=
  writeKey key ++ " = ".toList ++ value ++ ['\n']

end SchemaPlan.Toml
