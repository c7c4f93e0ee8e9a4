import GrammarCensus.Analysis
import GrammarCensus.Files.Tree

/-!
# Checking a file

The analysis of a specification that is kept in a file. What was read at the
path is given, so nothing here depends on where files come from: the outcome is
the census of the text, or the reason why there is no text or no census.
-/

namespace GrammarCensus

/-- Why a file has no census. -/
inductive CheckError
  /-- It cannot be read as a text. -/
  | unreadable (path : String) (error : Files.FileError)
  /-- Its text has no census. -/
  | faulty (error : AnalysisError)
deriving DecidableEq, Inhabited

/-- The diagnostic of the error that was found. -/
def CheckError.message : CheckError → String
  | .unreadable path error => "cannot read "++path++": "++error.message
  | .faulty error => error.message

/-- The census of what was read at a path. -/
def check (path : String) (contents : Except Files.FileError String) :
    Except CheckError Census :=
  match contents with
  | .error e => .error (.unreadable path e)
  | .ok text =>
    match census text with
    | .error e => .error (.faulty e)
    | .ok c => .ok c

/-- The census of a text is its check, whatever the path. -/
theorem check_ok (path text : String) :
    check path (.ok text) = (census text).mapError .faulty := by
  simp only [check]
  cases census text <;> rfl

/-- What is reported while a file is checked. -/
def checkEvents (path : String) (contents : Except Files.FileError String) :
    List Log.Event :=
  .reading path::
    match contents with
    | .error _ => []
    | .ok text => events text

end GrammarCensus
