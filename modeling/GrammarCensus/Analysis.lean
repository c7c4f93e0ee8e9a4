import GrammarCensus.Census
import GrammarCensus.Log.Event
import GrammarCensus.Recognition

/-!
# Analysis of a specification

A text is recognized and its survey is checked for closure. The outcome is the
census, or the first thing that is wrong; the events are what is reported on
the way. Both depend on the text alone.
-/

namespace GrammarCensus

/-- Why a text has no census. -/
inductive AnalysisError
  /-- It is not a specification. -/
  | malformed (error : SyntaxError)
  /-- Its grammar is not closed. -/
  | notClosed (error : ClosureError)
deriving DecidableEq, Inhabited

/-- The diagnostic of the error that was found. -/
def AnalysisError.message : AnalysisError → String
  | .malformed error => error.message
  | .notClosed error => error.message

/-- The census of a text, or the first error in it. -/
def census (text : String) : Except AnalysisError Census :=
  match survey text with
  | .error e => .error (.malformed e)
  | .ok s =>
    match s.census with
    | .error e => .error (.notClosed e)
    | .ok c => .ok c

/-- What is wrong with the syntax of a text is wrong with the text. -/
theorem census_of_survey_error {text : String} {e : SyntaxError} (h : survey text = .error e) :
    census text = .error (.malformed e) := by
  rw [census,h]

/-- A surveyed text that is not closed has that error. -/
theorem census_of_not_closed {text : String} {s : Survey} {e : ClosureError}
    (h : survey text = .ok s) (he : s.census = .error e) :
    census text = .error (.notClosed e) := by
  simp only [census,h,he]

/-- A surveyed text that is closed has the census of its survey. -/
theorem census_of_survey {text : String} {s : Survey} {c : Census} (h : survey text = .ok s)
    (hc : s.census = .ok c) : census text = .ok c := by
  simp only [census,h,hc]

/-- The census of a surveyed text is that of its survey. -/
theorem census_eq_ok_iff {text : String} {s : Survey} {c : Census} (h : survey text = .ok s) :
    census text = .ok c ↔ s.census = .ok c := by
  simp only [census,h]
  cases s.census <;> simp

/-- A surveyed text is not closed just where its survey is not. -/
theorem census_eq_notClosed_iff {text : String} {s : Survey} {e : ClosureError}
    (h : survey text = .ok s) : census text = .error (.notClosed e) ↔ s.census = .error e := by
  simp only [census,h]
  cases s.census <;> simp

/-- A text that is not closed has a survey. -/
theorem exists_survey_of_notClosed {text : String} {e : ClosureError}
    (h : census text = .error (.notClosed e)) : ∃ s, survey text = .ok s ∧ s.census = .error e := by
  cases hs : survey text with
  | error e' =>
    rw [census_of_survey_error hs] at h
    cases h
  | ok s => exact ⟨s,rfl,(census_eq_notClosed_iff hs).mp h⟩

/-- A text that has a census has a survey. -/
theorem exists_survey_of_census {text : String} {c : Census} (h : census text = .ok c) :
    ∃ s, survey text = .ok s ∧ s.census = .ok c := by
  cases hs : survey text with
  | error e =>
    rw [census_of_survey_error hs] at h
    cases h
  | ok s => exact ⟨s,rfl,(census_eq_ok_iff hs).mp h⟩

/-- What recognition reports: every examined token, and the end if it is
reached. -/
def Recognition.events (r : Recognition) : List Log.Event :=
  r.examined.map .lookahead++
    match r.outcome with
    | .error _ => []
    | .ok s => [.recognized s.registry.size s.nonTerminals s.terminals]

/-- What the check for closure reports. An empty grammar passes in silence. -/
def Survey.events (s : Survey) : List Log.Event :=
  match s.census with
  | .error .noRuleSets => []
  | .error (.undefined names) => [.undefined names]
  | .error (.unused names) => [.unused names]
  | .ok c => [.closed c]

/-- What an analysis reports of itself, in the order of its steps. -/
def events (text : String) : List Log.Event :=
  (Recognition.ofText text).events++
    match survey text with
    | .error _ => []
    | .ok s => s.events

end GrammarCensus
