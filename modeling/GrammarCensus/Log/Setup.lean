import GrammarCensus.Log.Filter
import GrammarCensus.Settings

/-!
# Setting up logging

Which filter applies to a run. A filter in the environment comes first, if it
is valid as a whole; else the one of the settings applies, as far as it is
valid. Reports of tokens can be asked for on top of either.
-/

namespace GrammarCensus.Log

/-- How a run writes its log. -/
structure Setup where
  /-- The filter that applies. -/
  filter : Filter
  /-- The lines on the pieces of the settings' filter that are left out. -/
  ignored : List String
deriving Repr, DecidableEq

namespace Setup

/-- The filter of the environment or of the settings, without reports of tokens. -/
def base (override? : Option String) (logFilter : String) : Setup :=
  match override?.bind Filter.ofText? with
  | some filter => ⟨filter,[]⟩
  | none => ⟨.ofLenientText logFilter,Filter.ignoredLines logFilter⟩

/-- The set-up of a run. Every token is reported if the settings or the command
line ask for it. -/
def ofRun (override? : Option String) (settings : Settings) (traceTokens : Bool) : Setup :=
  let setup := base override? settings.logFilter
  if traceTokens || settings.traceTokens then
    ⟨setup.filter.add Filter.tokenTrace,setup.ignored⟩
  else setup

/-- The lines that are written for some events, after those on pieces that were
left out. -/
def write (s : Setup) (events : List Event) : String :=
  String.join s.ignored++
    String.join ((events.filter s.filter.admits).map Event.line)

end Setup

end GrammarCensus.Log
