/-!
# Log levels

The five levels of log lines, from the most to the least urgent, and the
thresholds up to which lines are written. A threshold is a level or nothing;
at no threshold nothing is written.
-/

namespace GrammarCensus.Log

/-- How urgent a log line is. -/
inductive Level
  /-- Something failed. -/
  | error
  /-- Something is suspicious. -/
  | warn
  /-- Something of note happened. -/
  | info
  /-- A detail for those who look for a fault. -/
  | debug
  /-- Every single step. -/
  | trace
deriving Repr, DecidableEq, Inhabited

namespace Level

/-- The place of a level, the most urgent one being first. -/
def rank : Level → Nat
  | .error => 1
  | .warn => 2
  | .info => 3
  | .debug => 4
  | .trace => 5

/-- The name of a level in a log line, set flush right in five columns. -/
def label : Level → String
  | .error => "ERROR"
  | .warn => " WARN"
  | .info => " INFO"
  | .debug => "DEBUG"
  | .trace => "TRACE"

end Level

/-- The least urgent level that is still written, or none where nothing is. -/
abbrev Threshold := Option Level

namespace Threshold

/-- Whether lines of a level are written. -/
def admits (t : Threshold) (level : Level) : Bool :=
  match t with
  | none => false
  | some least => decide (level.rank ≤ least.rank)

/-- The finest threshold admits every level. -/
@[simp] theorem admits_trace (level : Level) : admits (some .trace) level = true := by
  cases level <;> rfl

/-- The spellings of thresholds, in lower case. -/
def named : List (String × Threshold) :=
  [("off",none),("error",some .error),("warn",some .warn),("info",some .info),
    ("debug",some .debug),("trace",some .trace)]

/-- The thresholds by their numbers, from nothing to everything. -/
def numbered : List Threshold :=
  [none,some .error,some .warn,some .info,some .debug,some .trace]

/-- Reads a number in decimal digits, with a plus sign allowed before them. -/
def number? (text : List Char) : Option Nat :=
  let digits := match text with
    | '+' :: digits => digits
    | digits => digits
  if digits ≠ [] ∧ digits.all Char.isDigit then
    some (digits.foldl (fun n c => n*10+(c.toNat - '0'.toNat)) 0)
  else none

/-- Reads a threshold: its number, or its name in letters of any case. -/
def ofText? (text : String) : Option Threshold :=
  match number? text.toList with
  | some n => numbered[n]?
  | none => named.lookup (String.ofList (text.toList.map Char.toLower))

end Threshold

end GrammarCensus.Log
