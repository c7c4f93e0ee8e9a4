import GrammarCensus.Check
import GrammarCensus.CommandLine.Command
import GrammarCensus.Log.Setup

/-!
# Runs of the program

What a call prints and how it ends. Results go to standard output; log lines
and diagnostics go to standard error, the diagnostic last. A run sees a file
tree and at most one variable of the environment, and the only thing that it
ever changes is to add a settings file where none is. If the medium does not
take the whole of that file, the first part of it stays.
-/

namespace GrammarCensus

/-- How a run ends. -/
structure Output where
  /-- The exit code. -/
  exit : Nat
  /-- What goes to standard output. -/
  stdout : String
  /-- What goes to standard error. -/
  stderr : String
deriving Repr, DecidableEq, Inhabited

namespace Output

/-- The end of a run that has a result. -/
def success (stdout : String) : Output :=
  ⟨0,stdout,""⟩

/-- The end of a run that has a diagnostic instead. -/
def failure (message : String) : Output :=
  ⟨1,"",message++"\n"⟩

/-- The end of a run whose arguments make no sense. -/
def misuse : Output :=
  ⟨2,"","usage error"⟩

/-- The same end with some lines before everything on standard error. -/
def logged (lines : String) (o : Output) : Output :=
  ⟨o.exit,o.stdout,lines++o.stderr⟩

end Output

namespace Program

/-- What a check reports, from the set-up of the log on. -/
def eventsOf (settings : Settings) (traceTokens : Bool) (path : String)
    (contents : Except Files.FileError String) : List Log.Event :=
  .initialised settings.logFilter traceTokens::checkEvents path contents

/-- The result or the diagnostic of a check. -/
def verdict (path : String) (contents : Except Files.FileError String) : Output :=
  match check path contents with
  | .ok c => .success (c.render++"\n")
  | .error e => .failure e.message

/-- The end of a run that checks a file, from what was read at its path. -/
def checkOutput (override? : Option String) (settings : Settings) (traceTokens : Bool)
    (path : String) (contents : Except Files.FileError String) : Output :=
  (verdict path contents).logged
    ((Log.Setup.ofRun override? settings traceTokens).write
      (eventsOf settings traceTokens path contents))

/-- The tokens of a text, each on a line of its own, with the end of the text. -/
def dump (text : String) : String :=
  CommandLine.ofLines ((allTokens text).map Token.render)

/-- The end of a run that prints tokens, from what was read at the path. -/
def tokensOutput (path : String) (contents : Except Files.FileError String) : Output :=
  match contents with
  | .error e => .failure (CheckError.unreadable path e).message
  | .ok text => .success (dump text)

/-- The end of a run without a file to check. -/
def usageOutput : Output :=
  ⟨1,"",CommandLine.ofLines CommandLine.usage⟩

/-- The directory that settings are written into where none is given. -/
def initDirectory (directory? : Option String) : String :=
  directory?.getD "."

/-- The end of a run that has written settings into a directory. -/
def initOutput (directory : String) : Output :=
  .success ("Initialising in "++Settings.path directory++"\n")

/-- The directory whose settings apply where none is given. -/
def settingsDirectory (directory? : Option String) : String :=
  directory?.getD "."

/-- Runs a command on a file tree. -/
def execute (override? : Option String) (t : Files.FileTree) :
    CommandLine.Command → Output × Files.FileTree
  | .analyse none _ _ => (usageOutput,t)
  | .analyse (some file) traceTokens directory? =>
    (checkOutput override? (Settings.forDirectory t (some (settingsDirectory directory?)))
      traceTokens file (t.readText file),t)
  | .tokens file => (tokensOutput file (t.readText file),t)
  | .init directory? =>
    match Settings.createIn t (initDirectory directory?) with
    | (.error e,t') => (.failure e.message,t')
    | (.ok (),t') => (initOutput (initDirectory directory?),t')
  | .help topic => (.success (CommandLine.helpText topic),t)
  | .version => (.success CommandLine.versionText,t)
  | .invalid => (.misuse,t)

/-- Runs the program with some arguments. -/
def run (override? : Option String) (t : Files.FileTree) (arguments : List String) :
    Output × Files.FileTree :=
  execute override? t (.ofArguments arguments)

end Program

end GrammarCensus
