import GrammarCensus.Toml.Text

/-!
# Dates and times in TOML

Which words are dates, times of day, or both. Days are checked against the
Gregorian calendar. A minute may have a second numbered sixty, for the sake of
leap seconds.
-/

namespace GrammarCensus.Toml

/-- Reads a number of exactly `width` decimal digits. -/
def fixedNumber? (width : Nat) (text : List Char) : Option (Nat × List Char) := do
  let digits := text.take width
  guard (digits.length = width ∧ digits.all isDigit)
  return (digitsValue 10 (digits.map fun c => c.toNat - '0'.toNat),text.drop width)

/-- Whether a year has a twenty-ninth of February. -/
def isLeapYear (year : Nat) : Bool :=
  year%4 = 0 && (year%100 ≠ 0 || year%400 = 0)

/-- The number of days of a month, and none of what is no month. -/
def daysOfMonth (year month : Nat) : Nat :=
  if month = 2 then (if isLeapYear year then 29 else 28)
  else if month = 4 ∨ month = 6 ∨ month = 9 ∨ month = 11 then 30
  else if 1 ≤ month ∧ month ≤ 12 then 31
  else 0

/-- Reads a date, and gives what follows it. -/
def date? (text : List Char) : Option (List Char) := do
  let (year,rest) ← fixedNumber? 4 text
  let rest ← sign? '-' rest
  let (month,rest) ← fixedNumber? 2 rest
  let rest ← sign? '-' rest
  let (day,rest) ← fixedNumber? 2 rest
  guard (1 ≤ day ∧ day ≤ daysOfMonth year month)
  return rest

/-- Reads an hour and a minute, and gives what follows them. -/
def hourMinute? (text : List Char) : Option (List Char) := do
  let (hour,rest) ← fixedNumber? 2 text
  let rest ← sign? ':' rest
  let (minute,rest) ← fixedNumber? 2 rest
  guard (hour ≤ 23 ∧ minute ≤ 59)
  return rest

/-- Leaves out a decimal point with at least one digit, if there is one. -/
def skipDecimals (text : List Char) : List Char :=
  match text with
  | '.' :: d :: rest => if isDigit d then rest.dropWhile isDigit else text
  | _ => text

/-- Reads a time of day with seconds, and gives what follows it. -/
def time? (text : List Char) : Option (List Char) := do
  let rest ← hourMinute? text
  let rest ← sign? ':' rest
  let (second,rest) ← fixedNumber? 2 rest
  guard (second ≤ 60)
  return skipDecimals rest

/-- Whether a text is empty or a distance from universal time. -/
def isOffset : List Char → Bool
  | [] => true
  | c::rest =>
    if c = 'Z' ∨ c = 'z' then rest.isEmpty
    else if c = '+' ∨ c = '-' then decide (hourMinute? rest = some [])
    else false

/-- Whether a word is a date, a time of day, or a date and a time of day with a
letter or a space between them. Only the last may have an offset. -/
def isDatetime (text : List Char) : Bool :=
  match date? text with
  | some [] => true
  | some (c::rest) =>
    (c = 'T' || c = 't' || c = ' ') &&
      match time? rest with
      | none => false
      | some rest => isOffset rest
  | none => decide (time? text = some [])

end GrammarCensus.Toml
