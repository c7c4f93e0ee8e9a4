import GrammarCensus.Program

/-!
# The program

The outer layer: it reads the files that a command needs, hands their contents
to the library, prints what comes back and ends with its exit code. A settings
file is opened in a mode that fails where anything stands at its path already.
-/

namespace GrammarCensus.Console

/-- The file error that a failure of the system stands for. -/
def fileError : IO.Error → Files.FileError
  | .noFileOrDirectory .. => .notFound
  | .inappropriateType _ code _ =>
    if code = 20 then .notADirectory else .isADirectory
  | error => .refused error.toString

/-- The text of a file. -/
def readText (path : String) : IO (Except Files.FileError String) := do
  let read : IO ByteArray :=
    IO.FS.withFile path IO.FS.Mode.read fun handle => handle.readBinToEnd
  match ← read.toBaseIO with
  | .error error => return .error (fileError error)
  | .ok bytes => return Files.FileTree.decode bytes

/-- The settings of a directory. -/
def settingsFor (directory : String) : IO Settings := do
  let contents ← readText (Settings.path directory)
  return (Settings.ofContents? contents).getD .default

/-- Writes the default settings into a directory that has none. -/
def createSettings (directory : String) : IO (Except Files.FileError Unit) := do
  let path := Settings.path directory
  let write : IO Unit := do
    let handle ← IO.FS.Handle.mk path IO.FS.Mode.writeNew
    handle.putStr Settings.default.toToml
  match ← write.toBaseIO with
  | .ok () => return .ok ()
  | .error (.alreadyExists ..) => return .error (.settingsExist path)
  | .error error => return .error (fileError error)

/-- Carries out a command. -/
def execute (override? : Option String) : CommandLine.Command → IO Output
  | .analyse (some file) traceTokens directory? => do
    let settings ← settingsFor (Program.settingsDirectory directory?)
    return Program.checkOutput override? settings traceTokens file (← readText file)
  | .tokens file => do
    return Program.tokensOutput file (← readText file)
  | .init directory? => do
    let directory := Program.initDirectory directory?
    match ← createSettings directory with
    | .error error => return .failure error.message
    | .ok () => return Program.initOutput directory
  | command => return (Program.execute override? .empty command).1

end GrammarCensus.Console

/-- Runs the program on the arguments of its call. -/
def main (arguments : List String) : IO UInt32 := do
  let override? ← IO.getEnv "RUST_LOG"
  let output ← GrammarCensus.Console.execute override? (.ofArguments arguments)
  IO.print output.stdout
  IO.eprint output.stderr
  return output.exit.toUInt32
