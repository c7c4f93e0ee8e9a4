/-!
# Line and column positions

A position names a place in a text as a reader counts it: the line first, then
the column, both from one. A newline alone begins a line; every other
character, of whatever width in bytes, is one column. The main statements say
that passing two texts one after the other is passing their concatenation, and
that every character moves a position forward.
-/

namespace GrammarCensus

/-- A place in a text, counted in lines and characters. -/
structure Position where
  /-- The line, the first one being one. -/
  line : Nat
  /-- The column in the line, counted in characters, the first one being one. -/
  column : Nat
deriving Repr, DecidableEq, Inhabited

namespace Position

/-- The position of the first character of every text. -/
def start : Position := ⟨1,1⟩

/-- The position after one character that stands at `p`. -/
def step (p : Position) (c : Char) : Position :=
  if c = '\n' then ⟨p.line+1,1⟩ else ⟨p.line,p.column+1⟩

/-- The position after a text that begins at `p`. -/
def after (p : Position) (text : List Char) : Position :=
  text.foldl step p

/-- Passing nothing stays in place. -/
@[simp] theorem after_nil (p : Position) : p.after [] = p := rfl

/-- Passing a text is passing its first character and then the others. -/
@[simp] theorem after_cons (p : Position) (c : Char) (text : List Char) :
    p.after (c::text) = (p.step c).after text := rfl

/-- Passing two texts one after the other is passing their concatenation. -/
theorem after_append (p : Position) (first second : List Char) :
    p.after (first++second) = (p.after first).after second :=
  List.foldl_append

/-- The longest beginning of a text that takes at most `budget` bytes. A
character is never cut, so this ends at a character boundary. -/
def beginning : Nat → List Char → List Char
  | _,[] => []
  | budget,c::text =>
    if c.utf8Size ≤ budget then c::beginning (budget-c.utf8Size) text else []

/-- The beginning of a text is the front part of it. -/
theorem beginning_prefix (budget : Nat) (text : List Char) :
    beginning budget text <+: text := by
  induction text generalizing budget with
  | nil => simp [beginning]
  | cons c text ih =>
    simp only [beginning]
    split
    · exact List.cons_prefix_cons.mpr ⟨rfl,ih _⟩
    · exact List.nil_prefix

/-- The position of a byte offset in a text. An offset beyond the end counts as
the end, and one within a character as the beginning of that character. -/
def ofOffset (text : List Char) (offset : Nat) : Position :=
  start.after (beginning offset text)

/-- Positions compare by line, and on one line by column. -/
instance : Ord Position where
  compare p q := (compare p.line q.line).then (compare p.column q.column)

/-- A position is before another one on an earlier line, or earlier on its line. -/
instance : LT Position where
  lt p q := p.line < q.line ∨ p.line = q.line ∧ p.column < q.column

/-- A position is not after another one when it is before it or equal to it. -/
instance : LE Position where
  le p q := p.line < q.line ∨ p.line = q.line ∧ p.column ≤ q.column

/-- The order of positions is decided on their two numbers. -/
instance (p q : Position) : Decidable (p < q) :=
  inferInstanceAs (Decidable (p.line < q.line ∨ p.line = q.line ∧ p.column < q.column))

/-- The weak order of positions is decided on their two numbers. -/
instance (p q : Position) : Decidable (p ≤ q) :=
  inferInstanceAs (Decidable (p.line < q.line ∨ p.line = q.line ∧ p.column ≤ q.column))

/-- A character moves every position forward. -/
theorem lt_step (p : Position) (c : Char) : p < p.step c := by
  simp only [step]
  split
  · exact Or.inl (Nat.lt_succ_self _)
  · exact Or.inr ⟨rfl,Nat.lt_succ_self _⟩

/-- The line, a colon and the column. -/
def render (p : Position) : String :=
  p.line.repr++":"++p.column.repr

end Position

end GrammarCensus
