/-!
# Lines

A line ends at a line feed, a carriage return, or the pair of both. A terminator at the very end
starts no further line.
-/

namespace SchemaPlan.Text

/-- The lines that follow `done`, which holds finished lines in reverse, and `line`, which holds the
characters of the current line in reverse. -/
def linesFrom (done : List (List Char)) (line : List Char) : List Char → List (List Char)
  | [] => (if line.isEmpty then done else line.reverse :: done).reverse
  | '\r' :: '\n' :: cs => linesFrom (line.reverse :: done) [] cs
  | c :: cs =>
    if c = '\n' ∨ c = '\r' then linesFrom (line.reverse :: done) [] cs
    else linesFrom done (c :: line) cs

/-- The lines of a text, without their terminators. -/
def lines (s : List Char) : List (List Char) := linesFrom [] [] s

example : lines "a\r\n\rb\n".toList = ["a".toList, [], "b".toList] := by decide

end SchemaPlan.Text
