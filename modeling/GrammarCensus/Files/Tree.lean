import GrammarCensus.Files.Path

/-!
# File trees

The files and directories that a program can see, as a table from places to
what stands there. A path is followed part by part, and every place on the way
has to be a directory. The medium that all of it is kept on may refuse a change,
or take only the first bytes of a file. The main statements say how putting
something at a place and deleting it change what stands at each place.
-/

namespace GrammarCensus.Files

/-- Why a file cannot be used. -/
inductive FileError
  /-- Nothing stands at the path, or at a place on the way. -/
  | notFound
  /-- Something on the way is a file. -/
  | notADirectory
  /-- A directory stands where a file is asked for. -/
  | isADirectory
  /-- The bytes of the file are no text in UTF-8. -/
  | notText
  /-- A file stands where a directory is to be made. -/
  | occupied
  /-- Something stands at the path of the settings to be written. -/
  | settingsExist (path : String)
  /-- The system refuses for a reason of its own, which it describes. -/
  | refused (description : String)
deriving Repr, DecidableEq, Inhabited

/-- The diagnostic of a file error. -/
def FileError.message : FileError → String
  | .notFound => "No such file or directory (os error 2)"
  | .notADirectory => "Not a directory (os error 20)"
  | .isADirectory => "Is a directory (os error 21)"
  | .notText => "stream did not contain valid UTF-8"
  | .occupied => "File exists (os error 17)"
  | .settingsExist path => path++" already exists"
  | .refused description => description

/-- An error that the system has a number for. -/
structure SystemError where
  /-- What it is called. -/
  description : String
  /-- Its number. -/
  code : Nat
deriving Repr, DecidableEq, Inhabited

/-- The refusal that gives a system error as its reason. -/
def SystemError.refusal (e : SystemError) : FileError :=
  .refused (e.description++" (os error "++e.code.repr++")")

/-- What the medium lets be changed. -/
inductive Medium
  /-- Everything. -/
  | free
  /-- Everything, but of each file that is written only so many bytes fit. -/
  | limited (room : Nat) (error : SystemError)
  /-- Nothing. -/
  | locked (error : SystemError)
deriving Repr, DecidableEq, Inhabited

namespace Medium

/-- Whether anything can be changed. -/
def checkUnlocked : Medium → Except FileError Unit
  | .locked e => .error e.refusal
  | .free => .ok ()
  | .limited _ _ => .ok ()

/-- How a writing of some bytes ends, and the bytes that have been taken then. -/
def take : Medium → ByteArray → Except FileError Unit × ByteArray
  | .limited room e,bytes =>
    if bytes.size ≤ room then (.ok (),bytes) else (.error e.refusal,bytes.extract 0 room)
  | .free,bytes => (.ok (),bytes)
  | .locked e,_ => (.error e.refusal,.empty)

end Medium

/-- What stands at a place. -/
inductive Entry
  /-- A directory. -/
  | directory
  /-- A file with its bytes. -/
  | file (bytes : ByteArray)
deriving Inhabited

/-- Files are compared by their bytes. -/
instance : DecidableEq Entry
  | .directory,.directory => isTrue rfl
  | .directory,.file _ => isFalse fun h => by cases h
  | .file _,.directory => isFalse fun h => by cases h
  | .file bytes,.file others =>
    @decidable_of_iff' _ (bytes = others) (Entry.file.injEq bytes others).to_iff
      (ByteArray.instDecidableEq bytes others)

/-- The files and directories that can be seen. -/
structure FileTree where
  /-- The place of the working directory. -/
  working : Place
  /-- What can be changed. -/
  medium : Medium
  /-- What stands at each place, apart from the working directory and those that
  it is in. -/
  entries : List (Place × Entry)
deriving DecidableEq, Inhabited

namespace FileTree

/-- A tree with nothing but an empty working directory in the root. -/
def empty : FileTree :=
  ⟨⟨["work"]⟩,.free,[]⟩

/-- What stands at a place. The working directory and all those that it is in
are directories. -/
def at? (t : FileTree) (p : Place) : Option Entry :=
  if p.holds t.working then some .directory
  else (t.entries.find? (fun e => decide (e.1 = p))).map (·.2)

/-- Puts an entry at a place. Of several entries for one place the newest one
counts. -/
def put (t : FileTree) (p : Place) (e : Entry) : FileTree :=
  ⟨t.working,t.medium,(p,e)::t.entries⟩

/-- After an entry is put at a place apart from the working directory it stands
there, and all else is as before. -/
theorem at?_put (t : FileTree) {p : Place} (hp : p.holds t.working = false) (e : Entry)
    (q : Place) : (t.put p e).at? q = if q = p then some e else t.at? q := by
  by_cases hq : q = p
  · subst hq
    simp [at?,put,hp]
  · have hne : decide (p = q) = false := decide_eq_false fun h => hq h.symm
    simp [at?,put,hq,hne]

/-- Takes away what stands at a place. -/
def delete (t : FileTree) (p : Place) : FileTree :=
  ⟨t.working,t.medium,t.entries.filter fun e => decide (e.1 ≠ p)⟩

/-- After a deletion nothing stands at the place, and all else is as before. -/
theorem at?_delete (t : FileTree) {p : Place} (hp : p.holds t.working = false) (q : Place) :
    (t.delete p).at? q = if q = p then none else t.at? q := by
  by_cases hq : q = p
  · subst hq
    simp [at?,delete,hp]
  · simp only [at?,delete,hq,if_false,List.find?_filter]
    congr 3
    funext e
    by_cases he : e.1 = q <;> simp [he,hq]

/-- The same files on another medium. -/
def onMedium (t : FileTree) (medium : Medium) : FileTree :=
  ⟨t.working,medium,t.entries⟩

/-- Where the parts of a path start: at the root behind a leading slash, else in
the working directory. -/
def origin (t : FileTree) (path : String) : Place :=
  if path.toList.head? = some '/' then .root else t.working

/-- Whether a place can be passed on the way to another one. -/
def checkDirectory (t : FileTree) (p : Place) : Except FileError Unit :=
  match t.at? p with
  | none => .error .notFound
  | some .directory => .ok ()
  | some (.file _) => .error .notADirectory

/-- Follows the parts of a path from a place. What stands at the end of the way
is not looked at. -/
def follow (t : FileTree) (p : Place) : List String → Except FileError Place
  | [] => .ok p
  | part::rest => do
    t.checkDirectory p
    t.follow (p.enter part) rest

/-- The place of a path. The empty path has none, and at a path that ends in a
slash there has to be a directory. -/
def locate (t : FileTree) (path : String) : Except FileError Place := do
  if path = "" then .error .notFound
  let p ← t.follow (t.origin path) (parts path)
  if endsInSlash path then t.checkDirectory p
  return p

/-- Whether something stands at a path. -/
def has (t : FileTree) (path : String) : Bool :=
  match t.locate path with
  | .error _ => false
  | .ok p => (t.at? p).isSome

/-- The bytes of the file at a path. -/
def readBytes (t : FileTree) (path : String) : Except FileError ByteArray := do
  let p ← t.locate path
  match t.at? p with
  | none => .error .notFound
  | some .directory => .error .isADirectory
  | some (.file bytes) => .ok bytes

/-- The text that some bytes are in UTF-8. -/
def decode (bytes : ByteArray) : Except FileError String :=
  match String.fromUTF8? bytes with
  | none => .error .notText
  | some text => .ok text

/-- The bytes of a text decode to that text. -/
@[simp] theorem decode_toUTF8 (text : String) : decode text.toUTF8 = .ok text := by
  simp [decode,String.fromUTF8?,text.isValidUTF8]
  rfl

/-- The text of the file at a path. -/
def readText (t : FileTree) (path : String) : Except FileError String := do
  decode (← t.readBytes path)

/-- The place of a file that is to be written. Its directory has to exist, and no
file can be at a path that ends in a slash. -/
def locateNew (t : FileTree) (path : String) : Except FileError Place := do
  if path = "" then .error .notFound
  let p ← t.follow (t.origin path) (parts path)
  if endsInSlash path then .error .isADirectory
  match t.at? p with
  | some .directory => .error .isADirectory
  | _ =>
    t.medium.checkUnlocked
    return p

/-- Writes bytes into the file at a place, as many as the medium takes. -/
def fill (t : FileTree) (p : Place) (bytes : ByteArray) : Except FileError Unit × FileTree :=
  let (outcome,taken) := t.medium.take bytes
  (outcome,t.put p (.file taken))

/-- Writes a file, instead of one that is there already. The file is created, or
emptied, before it gets its bytes. So what has been taken of them stays, even if
the rest is not. -/
def write (t : FileTree) (path : String) (bytes : ByteArray) :
    Except FileError Unit × FileTree :=
  match t.locateNew path with
  | .error e => (.error e,t)
  | .ok p => (t.put p (.file .empty)).fill p bytes

/-- Makes a directory at the end of some parts, where there is none. The one
that it is in has to exist. -/
def makeAt (t : FileTree) (p : Place) (way : List String) : Except FileError FileTree := do
  let q ← t.follow p way
  match t.at? q with
  | none => do
    t.medium.checkUnlocked
    return t.put q .directory
  | some .directory => .ok t
  | some (.file _) => .error .occupied

/-- Makes a directory. Where it cannot be made because the one that it is in does
not exist, that one is made before. What has been made stays, even if a later
directory cannot be made. -/
def makeAfter (t : FileTree) (before : FileTree → Except FileError Unit × FileTree)
    (make : FileTree → Except FileError FileTree) : Except FileError Unit × FileTree :=
  match make t with
  | .ok t' => (.ok (),t')
  | .error .notFound =>
    match before t with
    | (.error e,t') => (.error e,t')
    | (.ok (),t') =>
      match make t' with
      | .ok t'' => (.ok (),t'')
      | .error e => (.error e,t')
  | .error e => (.error e,t)

/-- Makes a directory and those that it is in. The parts on the way to it are
given from the last to the first. -/
def makeAlong (t : FileTree) (p : Place) : List String → Except FileError Unit × FileTree
  | [] => (.ok (),t)
  | part::back =>
    t.makeAfter (fun t => t.makeAlong p back) (·.makeAt p (part::back).reverse)

/-- The way to the directory that the last name of a path is in, from its last
part to its first. Dots on their own name nothing. -/
def wayBack (path : String) : List String :=
  ((parts path).filter (· ≠ ".")).reverse.tail

/-- Makes the directory of a path and those that it is in, where they do not
exist. For the empty path nothing is to be made. -/
def makeDirectory (t : FileTree) (path : String) : Except FileError Unit × FileTree :=
  if path = "" then (.ok (),t)
  else
    t.makeAfter (·.makeAlong (t.origin path) (wayBack path))
      (·.makeAt (t.origin path) (parts path))

/-- Removes a file. -/
def remove (t : FileTree) (path : String) : Except FileError FileTree := do
  let p ← t.locate path
  match t.at? p with
  | none => .error .notFound
  | some .directory => .error .isADirectory
  | some (.file _) =>
    t.medium.checkUnlocked
    return t.delete p

end FileTree

end GrammarCensus.Files
