/-!
# Styled text

Text for a terminal, in colours and weights. A style is switched on before the text and off after
it; of two styles the one applied last stands outside.
-/

namespace SchemaPlan.Cli

/-- The ways in which text can stand out. -/
inductive Style where
  | bold
  | dim
  | red
  | green
  | yellow
  | cyan
  | white
deriving DecidableEq, Repr

namespace Style

/-- The number that switches a style on. -/
def on : Style → Nat
  | bold => 1
  | dim => 2
  | red => 31
  | green => 32
  | yellow => 33
  | cyan => 36
  | white => 37

/-- The number that switches a style off: weights are all reset, colours go back to the default. -/
def off : Style → Nat
  | bold | dim => 0
  | _ => 39

/-- The escape sequence of a number. -/
def sequence (number : Nat) : String := s!"\x1b[{number}m"

/-- A text in a style. -/
def apply (style : Style) (text : String) : String :=
  sequence style.on ++ text ++ sequence style.off

end Style

/-! ### Lines -/

/-- A line of text. -/
def line (text : String) : String := text ++ "\n"

/-- A title, underlined, with blank lines around it. -/
def header (title : String) : String :=
  let rule := String.ofList (List.replicate title.length '─')
  line "" ++ line (Style.cyan.apply (Style.bold.apply title)) ++ line (Style.dim.apply rule) ++
    line ""

/-- The title of a section. -/
def sectionTitle (title : String) : String := line (Style.white.apply (Style.bold.apply title))

/-- A named value. -/
def entry (name value : String) : String := line ("  " ++ Style.dim.apply name ++ ": " ++ value)

/-- A text with a mark, in a colour. -/
def marked (colour : Style) (mark text : String) : String :=
  line (Style.bold.apply (colour.apply mark) ++ " " ++ colour.apply text)

/-- A message of success. -/
def success (text : String) : String := marked .green "✔" text

/-- A warning. -/
def warning (text : String) : String := marked .yellow "⚠" text

/-- A message of failure. -/
def failure (text : String) : String := marked .red "✖" text

/-- One of several steps. -/
def step (current total : Nat) (text : String) : String :=
  line (Style.dim.apply s!"[{current}/{total}]" ++ " " ++ text)

end SchemaPlan.Cli
