import GrammarCensus.Files.Tree
import GrammarCensus.Toml.Document
import GrammarCensus.Toml.Quote

/-!
# Settings

What can be set for a run: which log lines are written, and whether every token
is reported. Settings are kept in a file of a directory, as TOML. Keys that are
not given have their default values, keys of other names are passed over, and a
file that cannot be read or is no valid document counts as absent.
-/

namespace GrammarCensus

/-- What can be set for a run. -/
structure Settings where
  /-- The log filter that applies where the environment gives none. -/
  logFilter : String
  /-- Whether every token that recognition looks at is reported. -/
  traceTokens : Bool
deriving Repr, DecidableEq

namespace Settings

/-- The log filter where none is set. -/
def defaultLogFilter : String := "warn"

/-- The settings where nothing is set. -/
def default : Settings :=
  ⟨defaultLogFilter,false⟩

/-- The default settings stand for settings that are not given. -/
instance : Inhabited Settings := ⟨default⟩

/-- The key of the log filter. -/
def logFilterKey : String := "log_filter"

/-- The key of the token reports. -/
def traceTokensKey : String := "trace_tokens"

/-- The text of a key, or a default where the key is absent. A value of another
type is refused. -/
def textOr? (default : String) : Option Toml.Value → Option String
  | none => some default
  | some (.string text) => some text
  | some _ => none

/-- The truth value of a key, or a default where the key is absent. A value of
another type is refused. -/
def truthOr? (default : Bool) : Option Toml.Value → Option Bool
  | none => some default
  | some (.boolean value) => some value
  | some _ => none

/-- The settings in the outermost table of a document. -/
def ofEntries? (entries : Toml.Entries) : Option Settings := do
  let logFilter ← textOr? defaultLogFilter (Toml.Entries.get? entries logFilterKey)
  let traceTokens ← truthOr? false (Toml.Entries.get? entries traceTokensKey)
  return ⟨logFilter,traceTokens⟩

/-- Reads settings from a document. -/
def ofToml? (text : String) : Option Settings := do
  ofEntries? (← Toml.read? text)

/-- The line of the log filter. -/
def logFilterLine (logFilter : String) : String :=
  logFilterKey++" = "++Toml.quote logFilter++"\n"

/-- The line of the token reports. -/
def traceTokensLine (traceTokens : Bool) : String :=
  traceTokensKey++" = "++(if traceTokens then "true" else "false")++"\n"

/-- The document that holds some settings. -/
def toToml (s : Settings) : String :=
  logFilterLine s.logFilter++traceTokensLine s.traceTokens

/-- The name of the file that holds settings. -/
def fileName : String := "grammar_stats.toml"

/-- The path of the settings of a directory. -/
def path (directory : String) : String :=
  Files.join directory fileName

/-- Settings from what was read at their path. -/
def ofContents? : Except Files.FileError String → Option Settings
  | .error _ => none
  | .ok text => ofToml? text

/-- Reads the settings of a directory, if it has valid ones. -/
def ofDirectory? (t : Files.FileTree) (directory : String) : Option Settings :=
  ofContents? (t.readText (path directory))

/-- The settings of a directory, if one is given and it has valid ones, and the
default settings otherwise. -/
def forDirectory (t : Files.FileTree) (directory? : Option String) : Settings :=
  (directory?.bind (ofDirectory? t)).getD default

/-- Writes the default settings into a directory that has none. Whatever stands
at their path, it is left alone. -/
def createIn (t : Files.FileTree) (directory : String) :
    Except Files.FileError Unit × Files.FileTree :=
  if t.has (path directory) then (.error (.settingsExist (path directory)),t)
  else t.write (path directory) default.toToml.toUTF8

end Settings

end GrammarCensus
