import GrammarCensus.Text.Position
import GrammarCensus.Text.Span

/-!
# Tokens

The words of a grammar specification. A token is what a stretch of the text
stands for, together with where that stretch lies, both in bytes and as a
reader counts. The end of the text is a token too: it has an empty span and a
lexeme of its own that no stretch of text can have.
-/

namespace GrammarCensus

/-- What a token is to the syntax of specifications. -/
inductive Token.Kind
  /-- The end of the text. -/
  | endOfInput
  /-- The sign between a name and its alternatives. -/
  | colon
  /-- The sign between two alternatives. -/
  | pipe
  /-- The sign after the last alternative. -/
  | semicolon
  /-- A name that begins with a lower-case letter. -/
  | nonTerminal
  /-- A name that begins with an upper-case letter. -/
  | terminal
  /-- A character that belongs to no other token. -/
  | error
deriving Repr, DecidableEq, Inhabited

/-- The name under which a kind is printed. -/
def Token.Kind.name : Token.Kind → String
  | .endOfInput => "EndOfInput"
  | .colon => "Colon"
  | .pipe => "Pipe"
  | .semicolon => "Semicolon"
  | .nonTerminal => "NonTerminal"
  | .terminal => "Terminal"
  | .error => "Error"

/-- A word of a specification. -/
structure Token where
  /-- What the word is to the syntax. -/
  kind : Token.Kind
  /-- The word itself. -/
  lexeme : String
  /-- Where the word lies in the text, in bytes. -/
  span : Span
  /-- Where the word begins, in lines and columns. -/
  position : Position
deriving Repr, DecidableEq, Inhabited

namespace Token

/-- The lexeme of the end of the text, which has no characters of its own. -/
def endLexeme : String := "<EOF>"

/-- The position, the kind and the lexeme in single quotes. The lexeme is
written as it is, whatever characters it has. -/
def render (t : Token) : String :=
  t.position.render++" "++t.kind.name++" '"++t.lexeme++"'"

end Token

end GrammarCensus
