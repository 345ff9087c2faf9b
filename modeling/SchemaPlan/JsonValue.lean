/-!
# JSON

The JSON values that a plan is written as, and their text over several lines: each item stands on
a line of its own, two spaces further in than its list or record, and an empty list or record
stays on one line. In a text, quotes, backslashes and control characters below the space are
escaped, and all else is written as it is.
-/

namespace SchemaPlan

/-- A JSON value without fractions. -/
inductive JsonValue where
  | null
  | number (n : Int)
  | text (s : String)
  | list (items : List JsonValue)
  | record (fields : List (String × JsonValue))

namespace JsonValue

/-- A text, or null if there is none. -/
def ofText? : Option String → JsonValue
  | some s => .text s
  | none => .null

/-- The digits of a control character. -/
def fourDigits (c : Char) : List Char :=
  let digits := Nat.toDigits 16 c.toNat
  List.replicate (4 - digits.length) '0' ++ digits

/-- How a character is written inside a text. -/
def writeChar (c : Char) : List Char :=
  match c with
  | '"' => ['\\', '"']
  | '\\' => ['\\', '\\']
  | '\x08' => ['\\', 'b']
  | '\x0c' => ['\\', 'f']
  | '\n' => ['\\', 'n']
  | '\r' => ['\\', 'r']
  | '\t' => ['\\', 't']
  | c => if c < ' ' then '\\' :: 'u' :: fourDigits c else [c]

/-- A text as it is written. -/
def writeText (s : String) : String := String.ofList ('"' :: (s.toList.flatMap writeChar ++ ['"']))

/-- The break between two lines, before a line at some depth. -/
def lineBreak (depth : Nat) : String := "\n" ++ String.ofList (List.replicate (2 * depth) ' ')

/-- Items between brackets at some depth, each on a line of its own. -/
def bracketed (opening closing : String) (depth : Nat) : List String → String
  | [] => opening ++ closing
  | items =>
    let inner := ("," ++ lineBreak (depth + 1)).intercalate items
    opening ++ lineBreak (depth + 1) ++ inner ++ lineBreak depth ++ closing

mutual

/-- A value as it is written at some depth. -/
def write (depth : Nat) : JsonValue → String
  | null => "null"
  | number n => toString n
  | text s => writeText s
  | list items => bracketed "[" "]" depth (writeItems (depth + 1) items)
  | record fields => bracketed "\x7b" "\x7d" depth (writeFields (depth + 1) fields)

/-- Values as they are written at some depth. -/
def writeItems (depth : Nat) : List JsonValue → List String
  | [] => []
  | item :: items => write depth item :: writeItems depth items

/-- Fields as they are written at some depth. -/
def writeFields (depth : Nat) : List (String × JsonValue) → List String
  | [] => []
  | field :: fields => writeField depth field :: writeFields depth fields

/-- A field as it is written at some depth. -/
def writeField (depth : Nat) : String × JsonValue → String
  | (name, value) => writeText name ++ ": " ++ write depth value

end

/-- The text of a value over several lines. -/
def render (value : JsonValue) : String := write 0 value

end JsonValue

end SchemaPlan
