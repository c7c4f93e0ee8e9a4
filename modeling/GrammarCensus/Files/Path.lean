/-!
# Paths

A written path is a list of parts with slashes between them, of which several
in a row count as one. A place is where such parts lead: names from the root on,
each of something in the directory before it.
-/

namespace GrammarCensus.Files

/-- A place for a file or directory. -/
structure Place where
  /-- The names that lead to it from the root, the last one first. -/
  names : List String
deriving Repr, DecidableEq

namespace Place

/-- The root of all files. -/
def root : Place :=
  ⟨[]⟩

/-- The root stands for a place that is not given. -/
instance : Inhabited Place := ⟨root⟩

/-- The directory that a place is in. The root is in itself. -/
def parent (p : Place) : Place :=
  ⟨p.names.tail⟩

/-- Where one part of a path leads. A dot stays, two dots lead to the parent,
and any other part is a name. -/
def enter (p : Place) (part : String) : Place :=
  if part = "." then p
  else if part = ".." then p.parent
  else ⟨part::p.names⟩

/-- Whether another place is this one or lies below it. -/
def holds (p other : Place) : Bool :=
  p.names.isSuffixOf other.names

end Place

/-- The parts of a written path. -/
def parts (path : String) : List String :=
  ((path.toList.splitOn '/').filter (· ≠ [])).map String.ofList

/-- Whether a path ends in a slash, so that it can only be that of a directory. -/
def endsInSlash (path : String) : Bool :=
  path.toList.getLast? = some '/'

/-- The path of a name in a directory. A slash comes between them, unless the
directory is written as nothing or ends in a slash. -/
def join (directory name : String) : String :=
  if directory = "" ∨ endsInSlash directory then directory++name
  else directory++"/"++name

end GrammarCensus.Files
