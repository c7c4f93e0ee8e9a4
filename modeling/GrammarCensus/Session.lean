import GrammarCensus.Program

/-!
# Sessions

A session is a sequence of actions on one file tree: files are written and
removed, settings are read and written, and the program is run. What the medium
takes can be changed at any time, so that any of the changes may be refused or
cut short. Every action has a reply and leaves a file tree for the next one.
-/

namespace GrammarCensus

/-- One action of a session. -/
inductive Action
  /-- Writes a file. -/
  | write (path : String) (bytes : ByteArray)
  /-- Makes a directory and those it is in. -/
  | makeDirectory (path : String)
  /-- Removes a file. -/
  | remove (path : String)
  /-- Sets what can be changed from then on. -/
  | setMedium (medium : Files.Medium)
  /-- Reads a file as a text. -/
  | read (path : String)
  /-- Checks a file. -/
  | check (path : String)
  /-- Reads the settings of a directory. -/
  | readSettings (directory : String)
  /-- Finds the settings that apply to a directory, or to none. -/
  | settingsFor (directory? : Option String)
  /-- Writes the default settings into a directory. -/
  | createSettings (directory : String)
  /-- Runs the program. -/
  | run (arguments : List String) (override? : Option String)

/-- What an action answers. -/
inductive Reply
  /-- The action is done. -/
  | done
  /-- A file stands in the way of the action. -/
  | failed (error : Files.FileError)
  /-- A text, if there is one. -/
  | text (text? : Option String)
  /-- The outcome of a check. -/
  | checked (outcome : Except CheckError Census)
  /-- Settings, if there are any. -/
  | settings (settings? : Option Settings)
  /-- The path of settings that have been written. -/
  | written (path : String)
  /-- The end of a run. -/
  | ran (output : Output)

namespace Session

/-- The reply to a change that may have done a part of its work before it failed,
and the tree after it. -/
def changed (reply : Reply) :
    Except Files.FileError Unit × Files.FileTree → Reply × Files.FileTree
  | (.error e,t) => (.failed e,t)
  | (.ok (),t) => (reply,t)

/-- The reply to a removal, and the tree after it. Where it fails nothing is
removed. -/
def removed (t : Files.FileTree) (r : Except Files.FileError Files.FileTree) :
    Reply × Files.FileTree :=
  match r with
  | .error e => (.failed e,t)
  | .ok t' => (.done,t')

/-- One action on a file tree. -/
def step (t : Files.FileTree) : Action → Reply × Files.FileTree
  | .write path bytes => changed .done (t.write path bytes)
  | .makeDirectory path => changed .done (t.makeDirectory path)
  | .remove path => removed t (t.remove path)
  | .setMedium medium => (.done,t.onMedium medium)
  | .read path => (.text (t.readText path).toOption,t)
  | .check path => (.checked (GrammarCensus.check path (t.readText path)),t)
  | .readSettings directory => (.settings (Settings.ofDirectory? t directory),t)
  | .settingsFor directory? => (.settings (some (Settings.forDirectory t directory?)),t)
  | .createSettings directory =>
    changed (.written (Settings.path directory)) (Settings.createIn t directory)
  | .run arguments override? =>
    let (output,t') := Program.run override? t arguments
    (.ran output,t')

/-- The replies to some actions, one after the other, and the tree after them. -/
def steps (t : Files.FileTree) : List Action → List Reply × Files.FileTree
  | [] => ([],t)
  | action::actions =>
    let (reply,t1) := step t action
    let (replies,t2) := steps t1 actions
    (reply::replies,t2)

end Session

end GrammarCensus
