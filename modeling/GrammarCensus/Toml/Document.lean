import GrammarCensus.Toml.Line

/-!
# Documents of TOML

A document is read line by line into one table. A header decides to which table
the entries below it go, up to the next header. The first line that does not
fit to those before it makes the whole document invalid.
-/

namespace GrammarCensus.Toml

/-- A document of which some lines have been read. -/
structure Document where
  /-- The entries of the outermost table. -/
  root : Entries
  /-- The way to the table that further entries go to. -/
  current : List String

namespace Document

/-- Before the first line. Entries go to the outermost table. -/
def empty : Document :=
  ⟨[],[]⟩

/-- The document with one more line. -/
def addLine? (d : Document) : Line → Option Document
  | .blank => some d
  | .entry key value =>
    (alter false (addEntry key value) d.current .header d.root).map (⟨·,d.current⟩)
  | .header key =>
    (alter false (addHeader key.name) key.parents .header d.root).map (⟨·,key.path⟩)
  | .sharedHeader key =>
    (alter false (addElement key.name) key.parents .header d.root).map (⟨·,key.path⟩)

/-- The document that some lines make up. -/
def ofLines? (lines : List Line) : Option Document :=
  lines.foldlM addLine? empty

end Document

/-- Leaves out a byte order mark at the beginning. -/
def skipMark : List Char → List Char
  | '\ufeff' :: rest => rest
  | text => text

/-- The entries of the outermost table of a written document. -/
def read? (text : String) : Option Entries := do
  let lines ← lines? (skipMark text.toList)
  let document ← Document.ofLines? lines
  return document.root

end GrammarCensus.Toml
