import SchemaPlan.Toml.Value

/-!
# TOML numbers, dates and times

A scalar that is no string is a run of letters, digits and signs, read as a whole: a truth value,
a date or time, a floating point number or an integer. Integers have 64 bits. A number that would
round to positive infinity is refused; written as such, infinity is accepted. A date must be one
of the calendar, and is kept in normal form.
-/

namespace SchemaPlan.Toml

/-- Whether a character can stand in a scalar that is no string. -/
def isScalarChar (c : Char) : Bool :=
  c.isAlphanum || c = '+' || c = '-' || c = '_' || c = '.' || c = ':'

/-! ### Numbers -/

/-- The digits of a number in which single underscores may stand between digits. -/
def digits? (isDigit : Char → Bool) (s : List Char) : Option (List Char) :=
  let groups := s.splitOnP (· == '_')
  if groups.all fun g => !g.isEmpty && g.all isDigit then some groups.flatten else none

/-- The sign in front of a number, as whether it is negative, and the rest. -/
def splitSign (s : List Char) : Bool × List Char :=
  match s with
  | '-' :: rest => (true, rest)
  | '+' :: rest => (false, rest)
  | _ => (false, s)

/-- The digits of a decimal integer without a sign; none begins with a zero that could be left
out. -/
def wholeDigits? (s : List Char) : Option (List Char) :=
  match s with
  | '0' :: _ :: _ => none
  | _ => digits? Char.isDigit s

/-- The number that digits stand for in a base. -/
def numberOf (base : Nat) (digits : List Char) : Nat :=
  digits.foldl (fun n c =>
    n * base + (if c.isDigit then c.toNat - '0'.toNat else (c.toNat ||| 0x20) - 'a'.toNat + 10)) 0

/-- A number as an integer, if it fits into 64 bits with a sign. -/
def int64? (n : Int) : Option Value :=
  if -0x8000000000000000 ≤ n ∧ n ≤ 0x7FFFFFFFFFFFFFFF then some (.integer n) else none

/-- Whether a character is a digit of a base up to sixteen. -/
def isDigitOf (base : Nat) (c : Char) : Bool :=
  if c.isDigit then c.toNat - '0'.toNat < base
  else base = 16 && (('a' ≤ c && c ≤ 'f') || ('A' ≤ c && c ≤ 'F'))

/-- Read an integer; with a base in front there is no sign. -/
def integer? (s : List Char) : Option Value :=
  let based (base : Nat) (rest : List Char) : Option Value := do
    int64? (numberOf base (← digits? (isDigitOf base) rest))
  match s with
  | '0' :: 'x' :: rest => based 16 rest
  | '0' :: 'o' :: rest => based 8 rest
  | '0' :: 'b' :: rest => based 2 rest
  | _ => do
    let (negative, rest) := splitSign s
    let n : Int := numberOf 10 (← wholeDigits? rest)
    int64? (if negative then -n else n)

/-- Whether the number `digits · 10 ^ exponent` rounds to infinity, that is, whether it reaches the
middle between the greatest finite number of double precision and the power of two above it. -/
def roundsToInfinity (digits : List Char) (exponent : Int) : Bool :=
  let significant := digits.dropWhile (· = '0')
  let magnitude : Int := exponent + significant.length
  if significant.isEmpty || magnitude < 309 then false
  else if magnitude > 309 then true
  else
    let n := numberOf 10 significant
    let limit := Nat.pow 2 1024 - Nat.pow 2 970
    if 0 ≤ exponent then n * Nat.pow 10 exponent.toNat ≥ limit
    else n ≥ limit * Nat.pow 10 (-exponent).toNat

/-- The exponent at the end of a floating point number, given what follows its mark. -/
def exponent? (s : List Char) : Option Int := do
  let (negative, rest) := splitSign s
  let n : Int := numberOf 10 (← digits? Char.isDigit rest)
  return if negative then -n else n

/-- Whether a character marks an exponent. -/
def isExponentMark (c : Char) : Bool := c = 'e' || c = 'E'

/-- Read a floating point number. -/
def float? (s : List Char) : Option Value := do
  let (negative, unsigned) := splitSign s
  let value := Value.float (String.ofList s)
  if unsigned = "inf".toList ∨ unsigned = "nan".toList then return value
  let mantissa := unsigned.takeWhile (!isExponentMark ·)
  let whole ← wholeDigits? (mantissa.takeWhile (· ≠ '.'))
  let fraction ←
    match mantissa.dropWhile (· ≠ '.') with
    | [] => some []
    | _ :: rest => digits? Char.isDigit rest
  let exponent ←
    match unsigned.dropWhile (!isExponentMark ·) with
    | [] => if fraction.isEmpty then none else some 0
    | _ :: rest => exponent? rest
  if !negative && roundsToInfinity (whole ++ fraction) (exponent - fraction.length) then none
  else return value

/-! ### Dates and times -/

/-- Read a number of exactly `count` digits. -/
def fixed? (count : Nat) (s : List Char) : Option (Nat × List Char) :=
  let digits := s.take count
  if digits.length = count && digits.all Char.isDigit then some (numberOf 10 digits, s.drop count)
  else none

/-- Read a given character. -/
def mark? (c : Char) (s : List Char) : Option (List Char) :=
  match s with
  | d :: rest => if d = c then some rest else none
  | [] => none

/-- A number with at least `width` digits. -/
def padded (width n : Nat) : List Char :=
  let digits := (toString n).toList
  List.replicate (width - digits.length) '0' ++ digits

/-- The number of days in a month. -/
def daysIn (year month : Nat) : Nat :=
  if month = 2 then
    if year % 4 = 0 ∧ (year % 100 ≠ 0 ∨ year % 400 = 0) then 29 else 28
  else if month ∈ [4, 6, 9, 11] then 30
  else 31

/-- Read a date of the calendar. -/
def date? (s : List Char) : Option (List Char × List Char) := do
  let (year, s) ← fixed? 4 s
  let (month, s) ← fixed? 2 (← mark? '-' s)
  let (day, s) ← fixed? 2 (← mark? '-' s)
  if 1 ≤ month ∧ month ≤ 12 ∧ 1 ≤ day ∧ day ≤ daysIn year month then
    return (padded 4 year ++ ['-'] ++ padded 2 month ++ ['-'] ++ padded 2 day, s)
  else none

/-- The fraction of a second that digits stand for, to nine places and without zeros at the end. -/
def fractionText (digits : List Char) : List Char :=
  match ((digits.take 9).reverse.dropWhile (· = '0')).reverse with
  | [] => []
  | kept => '.' :: kept

/-- Read a time of day; a minute may have a second 60. -/
def time? (s : List Char) : Option (List Char × List Char) := do
  let (hour, s) ← fixed? 2 s
  let (minute, s) ← fixed? 2 (← mark? ':' s)
  let (second, s) ← fixed? 2 (← mark? ':' s)
  if hour ≤ 23 ∧ minute ≤ 59 ∧ second ≤ 60 then
    let clock := padded 2 hour ++ [':'] ++ padded 2 minute ++ [':'] ++ padded 2 second
    match s with
    | '.' :: rest =>
      let digits := rest.takeWhile Char.isDigit
      if digits.isEmpty then none
      else return (clock ++ fractionText digits, rest.dropWhile Char.isDigit)
    | _ => return (clock, s)
  else none

/-- Read the rest of a scalar as an offset from universal time; there may be none. -/
def offset? (s : List Char) : Option (List Char) :=
  match s with
  | [] => some []
  | ['Z'] | ['z'] => some ['Z']
  | sign :: rest => do
    if sign ≠ '+' ∧ sign ≠ '-' then none
    let (hour, s) ← fixed? 2 rest
    let (minute, s) ← fixed? 2 (← mark? ':' s)
    if hour ≤ 23 ∧ minute ≤ 59 ∧ s.isEmpty then
      let shown := if hour = 0 ∧ minute = 0 then '+' else sign
      return shown :: padded 2 hour ++ [':'] ++ padded 2 minute
    else none

/-- Read a time that follows a date, with its offset. -/
def timeAfterDate? (date s : List Char) : Option Value := do
  let (time, rest) ← time? s
  return .dateTime (String.ofList (date ++ ['T'] ++ time ++ (← offset? rest)))

/-- Read a date, a time, or both joined by a letter. -/
def dateTime? (s : List Char) : Option Value :=
  match date? s with
  | some (date, []) => some (.dateTime (String.ofList date))
  | some (date, t :: rest) => if t = 'T' ∨ t = 't' then timeAfterDate? date rest else none
  | none =>
    match time? s with
    | some (time, []) => some (.dateTime (String.ofList time))
    | _ => none

/-! ### Any scalar -/

/-- Read a run of characters as a scalar. -/
def scalarOf? (run : List Char) : Option Value :=
  if run = "true".toList then some (.boolean true)
  else if run = "false".toList then some (.boolean false)
  else (dateTime? run).or ((float? run).or (integer? run))

/-- Read a scalar that is no string. A time may follow a date after a single space. -/
def readScalar (s : List Char) : Option (Value × List Char) := do
  let run := s.takeWhile isScalarChar
  let rest := s.dropWhile isScalarChar
  match date? run, rest with
  | some (date, []), ' ' :: after =>
    let time := after.takeWhile isScalarChar
    if time.isEmpty then return (.dateTime (String.ofList date), rest)
    else return (← timeAfterDate? date time, after.dropWhile isScalarChar)
  | _, _ => return (← scalarOf? run, rest)

end SchemaPlan.Toml
