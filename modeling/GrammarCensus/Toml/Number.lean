import GrammarCensus.Toml.Text

/-!
# Numbers in TOML

Which words are integers and which are decimal fractions. Digits may be grouped
by single underscores between them. An integer has to fit into 64 bits with a
sign. A fraction may be of any length, but a positive one so great that binary
floating point of 64 bits rounds it to infinity is refused.
-/

namespace GrammarCensus.Toml

/-- Digits with single underscores between them, without these. At least one
digit is needed. -/
def grouped? (digit : Char → Bool) : List Char → Option (List Char)
  | [] => none
  | [c] => if digit c then some [c] else none
  | c::d::rest =>
    if digit c then
      if d = '_' then (grouped? digit rest).map (c::·)
      else (grouped? digit (d::rest)).map (c::·)
    else none

/-- The sign in front of a number and what follows it. -/
def signed : List Char → Bool × List Char
  | '-' :: rest => (true,rest)
  | '+' :: rest => (false,rest)
  | text => (false,text)

/-- Decimal digits without a needless zero in front. -/
def wholeDigits? (text : List Char) : Option (List Char) := do
  let digits ← grouped? isDigit text
  guard (digits.head? ≠ some '0' ∨ text.length = 1)
  return digits

/-- The number that digits of a base stand for. -/
def digitsNumber (base : Nat) (digits : List Char) : Nat :=
  digitsValue base (digits.filterMap hexDigit?)

/-- Whether a digit is one of a base. -/
def isDigitOf (base : Nat) (c : Char) : Bool :=
  match hexDigit? c with
  | none => false
  | some d => decide (d < base)

/-- The first integer that 64 bits with a sign do not hold. -/
def integerBound : Nat := Nat.pow 2 63

/-- Reads a number to a base that is not ten. It has no sign. -/
def based? (base : Nat) (text : List Char) : Option Int := do
  let digits ← grouped? (isDigitOf base) text
  let n := digitsNumber base digits
  guard (n < integerBound)
  return n

/-- Reads an integer. The bases two, eight and sixteen are marked in front. -/
def integer? : List Char → Option Int
  | '0' :: 'x' :: rest => based? 16 rest
  | '0' :: 'o' :: rest => based? 8 rest
  | '0' :: 'b' :: rest => based? 2 rest
  | text => do
    let (negative,rest) := signed text
    let digits ← wholeDigits? rest
    let n := digitsNumber 10 digits
    if negative then
      guard (n ≤ integerBound)
      return -n
    else
      guard (n < integerBound)
      return n

/-- A decimal fraction without its sign, as it is written. -/
structure Fraction where
  /-- All its digits, those before and those behind the point. -/
  digits : List Char
  /-- The power of ten by which the number made of all digits is scaled. -/
  scale : Int
deriving Repr, DecidableEq

namespace Fraction

/-- The least number that binary floating point of 64 bits rounds to infinity:
half a unit beyond the greatest finite value, where a tie goes upwards. -/
def overflowBound : Nat := Nat.pow 2 1024-Nat.pow 2 970

/-- A power of ten above the overflow bound. -/
def overflowDigits : Int := 310

/-- Whether a fraction reaches the overflow bound. The exact
comparison is made only where the number of digits leaves it open. -/
def overflows (f : Fraction) : Bool :=
  let digits := f.digits.dropWhile (· = '0')
  let n := digitsNumber 10 digits
  let size := digits.length+f.scale
  if digits = [] ∨ size < 300 then false
  else if size > overflowDigits then true
  else if 0 ≤ f.scale then decide (overflowBound ≤ n*Nat.pow 10 f.scale.toNat)
  else decide (overflowBound*Nat.pow 10 (-f.scale).toNat ≤ n)

end Fraction

/-- Reads an exponent, with its letter. -/
def exponent? : List Char → Option Int
  | [] => none
  | c::rest => do
    guard (c = 'e' ∨ c = 'E')
    let (negative,rest) := signed rest
    let digits ← grouped? isDigit rest
    let n := digitsNumber 10 digits
    return if negative then -n else n

/-- Whether a character begins an exponent. -/
def isExponentLetter (c : Char) : Bool :=
  c = 'e' || c = 'E'

/-- Reads a decimal fraction: a whole number, and behind it a point with digits,
an exponent, or both. -/
def fraction? (text : List Char) : Option Fraction := do
  let rest := (signed text).2
  let whole ← wholeDigits? (rest.takeWhile fun c => isDigit c || c = '_')
  match rest.dropWhile fun c => isDigit c || c = '_' with
  | [] => none
  | '.' :: rest =>
    let decimals ← grouped? isDigit (rest.takeWhile fun c => !isExponentLetter c)
    let scale ← match rest.dropWhile fun c => !isExponentLetter c with
      | [] => some 0
      | rest => exponent? rest
    return ⟨whole++decimals,scale-decimals.length⟩
  | rest =>
    let scale ← exponent? rest
    return ⟨whole,scale⟩

/-- The words for infinity and for no number, which may have a sign. -/
def isSpecialNumber (text : List Char) : Bool :=
  let word := (signed text).2
  word = ['i','n','f'] || word = ['n','a','n']

/-- Whether a word is a number in floating point. A positive fraction that comes
out as infinity is refused; a negative one may stand for negative infinity. -/
def isFloat (text : List Char) : Bool :=
  isSpecialNumber text ||
    match fraction? text with
    | none => false
    | some f => (signed text).1 || !f.overflows

end GrammarCensus.Toml
