import GrammarCensus.Toml.Key

/-!
# Values and tables of TOML

The data of a document, and how tables grow while a document is read. A table
remembers how it came about, which decides what may still be added to it: a
table in braces is complete, one with a header of its own takes no dotted keys
from elsewhere, and one that a header merely passed through can still be given
a header. Every addition either extends the data or is refused; nothing is ever
replaced.
-/

namespace GrammarCensus.Toml

/-- How a table came about. -/
inductive Origin
  /-- It was written in braces, with all that it holds. -/
  | braces
  /-- It has a header, or is the document. -/
  | header
  /-- A header of a table inside it passed through. -/
  | passed
  /-- A dotted key passed through. -/
  | dotted
deriving Repr, DecidableEq, Inhabited

/-- A value of a document. Numbers in floating point and dates are kept as they
are written. -/
inductive Value
  /-- A text. -/
  | string (text : String)
  /-- A whole number. -/
  | integer (value : Int)
  /-- A number in floating point. -/
  | float (literal : String)
  /-- A truth value. -/
  | boolean (value : Bool)
  /-- A date, a time of day, or both. -/
  | datetime (literal : String)
  /-- Values in brackets. -/
  | array (elements : List Value)
  /-- Keys with their values. -/
  | table (origin : Origin) (entries : List (String × Value))
  /-- Tables that share one header: the last one, and those before it, the
  newest first. -/
  | tables (last : List (String × Value)) (earlier : List (List (String × Value)))
deriving Inhabited

/-- The keys of a table with their values, no key twice. -/
abbrev Entries := List (String × Value)

namespace Entries

/-- The value of a key. -/
def get? (entries : Entries) (key : String) : Option Value :=
  (entries.find? (fun e => decide (e.1 = key))).map (·.2)

/-- Sets the value of a key, in its place if it has one and else at the end. -/
def set (entries : Entries) (key : String) (value : Value) : Entries :=
  match entries with
  | [] => [(key,value)]
  | e::rest => if e.1 = key then (key,value)::rest else e::Entries.set rest key value

/-- After setting a key it has the new value, and the other keys are as before. -/
theorem get?_set (entries : Entries) (key : String) (value : Value) (other : String) :
    Entries.get? (Entries.set entries key value) other =
      if other = key then some value else Entries.get? entries other := by
  induction entries with
  | nil =>
    by_cases h : other = key
    · subst h; simp [get?,set]
    · have h' : key ≠ other := fun e => h e.symm
      simp [get?,set,h,h']
  | cons e rest ih =>
    simp only [get?] at ih
    by_cases hk : e.1 = key
    · by_cases h : other = key
      · subst h; simp [get?,set,hk]
      · have h' : key ≠ other := fun e => h e.symm
        have h'' : e.1 ≠ other := fun he => h' (hk ▸ he)
        simp [get?,set,hk,h,h']
    · simp only [get?,set,if_neg hk,List.find?_cons]
      by_cases ho : e.1 = other
      · have h : other ≠ key := fun he => hk (ho.trans he)
        simp [ho,h]
      · simp only [decide_eq_false ho]
        exact ih

end Entries

/-- Whether a way through tables ends at a table of this origin. A dotted key
does not enter a table that has a header. -/
def Origin.blocks (o : Origin) (dotted : Bool) : Bool :=
  match o with
  | .braces => true
  | .header => dotted
  | .passed => false
  | .dotted => false

/-- Changes the table at the end of a way, which starts from a table with the
given origin and entries. Tables that are missing on the way are made; the last
table of several that share a header stands for them all. -/
def alter (dotted : Bool) (change : Origin → Entries → Option Entries) :
    List String → Origin → Entries → Option Entries
  | [],origin,entries => change origin entries
  | key::path,_,entries =>
    match Entries.get? entries key with
    | none =>
      let origin := if dotted then Origin.dotted else .passed
      (alter dotted change path origin []).map fun inner =>
        Entries.set entries key (.table origin inner)
    | some (.table origin inner) =>
      if origin.blocks dotted then none
      else (alter dotted change path origin inner).map fun inner =>
        Entries.set entries key (.table origin inner)
    | some (.tables last earlier) =>
      (alter dotted change path .header last).map fun last =>
        Entries.set entries key (.tables last earlier)
    | some _ => none

/-- Adds a new key to a table. A dotted key ends only in a table that dotted
keys made, and a single key only in one that they did not make. -/
def addLast (single : Bool) (name : String) (value : Value) (origin : Origin)
    (entries : Entries) : Option Entries :=
  if (decide (origin = .dotted)) = single then none
  else
    match Entries.get? entries name with
    | none => some (Entries.set entries name value)
    | some _ => none

/-- Adds a key with its value to a table. -/
def addEntry (key : Key) (value : Value) (origin : Origin) (entries : Entries) :
    Option Entries :=
  alter true (addLast key.parents.isEmpty key.name value) key.parents origin entries

/-- Gives a table its header. It must be new, or passed through so far. -/
def addHeader (name : String) (_ : Origin) (entries : Entries) : Option Entries :=
  match Entries.get? entries name with
  | none => some (Entries.set entries name (.table .header []))
  | some (.table .passed inner) => some (Entries.set entries name (.table .header inner))
  | some _ => none

/-- Adds one more table to those that share a header. -/
def addElement (name : String) (_ : Origin) (entries : Entries) : Option Entries :=
  match Entries.get? entries name with
  | none => some (Entries.set entries name (.tables [] []))
  | some (.tables last earlier) =>
    some (Entries.set entries name (.tables [] (last::earlier)))
  | some _ => none

end GrammarCensus.Toml
