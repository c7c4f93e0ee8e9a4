import GrammarCensus.Toml.Lexis

/-!
# Writing texts in TOML

Every text has one written form. It is the plainest one that can hold the text:
double quotes where nothing needs an escape, single ones where nothing but
backslashes and double quotes stands in the way, and triple quotes where the
text has newlines or quotes of both kinds. Only a text with other control
characters, or with long runs of both kinds of quotes, is written with escapes.
-/

namespace GrammarCensus.Toml

/-- The four written forms of a text. -/
inductive Quoting
  /-- One line in double quotes. -/
  | basic
  /-- One line in single quotes, without escapes. -/
  | literal
  /-- Several lines in three double quotes. -/
  | basicBlock
  /-- Several lines in three single quotes, without escapes. -/
  | literalBlock
deriving Repr, DecidableEq, Inhabited

/-- The control characters that no written form holds as they are. -/
def isControl (c : Char) : Bool :=
  (decide (c.toNat ≤ 0x1f) && c ≠ '\t' && c ≠ '\n') || c = '\x7f'

/-- The length of the longest run of a character, of which `run` have come
already. -/
def longestRunFrom (quote : Char) (run : Nat) : List Char → Nat
  | [] => run
  | c::text =>
    if c = quote then longestRunFrom quote (run+1) text
    else max run (longestRunFrom quote 0 text)

/-- The length of the longest run of a character in a text. -/
def longestRun (quote : Char) (text : List Char) : Nat :=
  longestRunFrom quote 0 text

/-- The form in which a text is written. -/
def quoting (text : List Char) : Quoting :=
  let control := text.any isControl
  let backslash := text.contains '\\'
  let newline := text.contains '\n'
  if control = false ∧ backslash = false ∧ longestRun '"' text = 0 ∧ newline = false then
    .basic
  else if control = false ∧ longestRun '\'' text = 0 ∧ newline = false then .literal
  else if control = false ∧ backslash = false ∧ longestRun '"' text ≤ 2 then .basicBlock
  else if control = false ∧ longestRun '\'' text ≤ 2 then .literalBlock
  else if newline then .basicBlock
  else .basic

/-- The upper-case hexadecimal digit of a number below sixteen. -/
def upperHexDigit (n : Nat) : Char :=
  if n < 10 then Char.ofNat ('0'.toNat+n) else Char.ofNat ('A'.toNat+(n-10))

/-- The escape of a character, if it needs one in either form with escapes. -/
def characterEscape? (c : Char) : Option (List Char) :=
  if c = '\x08' then some ['\\','b']
  else if c = '\t' then some ['\\','t']
  else if c = '\x0c' then some ['\\','f']
  else if c = '\r' then some ['\\','r']
  else if c = '\\' then some ['\\','\\']
  else if isControl c then
    some ['\\','u','0','0',upperHexDigit (c.toNat/16),upperHexDigit (c.toNat%16)]
  else none

/-- The characters of a text on one line in double quotes. -/
def escapeLine : List Char → List Char
  | [] => []
  | c::text =>
    if c = '"' then '\\' :: '"' :: escapeLine text
    else if c = '\n' then '\\' :: 'n' :: escapeLine text
    else
      match characterEscape? c with
      | some e => e++escapeLine text
      | none => c::escapeLine text

/-- The characters of a text in three double quotes, `run` of which have come
without an escape just before. Every third one in a row gets an escape. -/
def escapeBlock (run : Nat) : List Char → List Char
  | [] => []
  | c::text =>
    if c = '"' then
      if run = 2 then '\\' :: '"' :: escapeBlock 0 text
      else '"' :: escapeBlock (run+1) text
    else
      match characterEscape? c with
      | some e => e++escapeBlock 0 text
      | none => c::escapeBlock 0 text

/-- The newline behind opening triple quotes, which a text with newlines has. -/
def openingNewline (text : List Char) : List Char :=
  if text.contains '\n' then ['\n'] else []

/-- A text in one form, with its quotes. -/
def quoteAs (q : Quoting) (text : List Char) : List Char :=
  match q with
  | .basic => '"' :: escapeLine text++['"']
  | .literal => '\'' :: text++['\'']
  | .basicBlock =>
    "\"\"\"".toList++openingNewline text++escapeBlock 0 text++"\"\"\"".toList
  | .literalBlock => "'''".toList++openingNewline text++text++"'''".toList

/-- The written form of a text. -/
def quote (text : String) : String :=
  String.ofList (quoteAs (quoting text.toList) text.toList)

end GrammarCensus.Toml
