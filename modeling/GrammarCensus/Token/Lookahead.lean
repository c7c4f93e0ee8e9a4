import GrammarCensus.Token.Reader

/-!
# One token of lookahead

A reader together with the token that comes next. The pending token can be
looked at any number of times before it is taken. At the end of the text taking
the pending token leaves it in place. The main statement is that taking any other
token leaves less to take.
-/

namespace GrammarCensus

/-- A reader whose next token has been read already. -/
structure Lookahead where
  /-- The token that comes next. -/
  pending : Token
  /-- The place behind the pending token. -/
  reader : Reader
deriving Repr, DecidableEq, Inhabited

namespace Lookahead

/-- Reads the first pending token. -/
def ofReader (r : Reader) : Lookahead :=
  ⟨r.next.1,r.next.2⟩

/-- The pending token. -/
def peek (l : Lookahead) : Token :=
  l.pending

/-- Takes the pending token and reads another one in its place. The end of the
text is never replaced. -/
def next (l : Lookahead) : Token × Lookahead :=
  (l.pending,if l.pending.kind = .endOfInput then l else ofReader l.reader)

/-- The token that is taken is the one that was pending. -/
@[simp] theorem next_fst (l : Lookahead) : l.next.1 = l.peek := rfl

/-- At the end of the text nothing changes. -/
theorem next_snd_of_endOfInput {l : Lookahead} (h : l.pending.kind = .endOfInput) :
    l.next.2 = l :=
  if_pos h

/-- Elsewhere the next token of the reader becomes pending. -/
theorem next_snd_of_ne_endOfInput {l : Lookahead} (h : l.pending.kind ≠ .endOfInput) :
    l.next.2 = ofReader l.reader :=
  if_neg h

/-- A bound for the number of tokens that can be taken before the end is pending. -/
def left (l : Lookahead) : Nat :=
  if l.pending.kind = .endOfInput then 0 else l.reader.rest.length+1

/-- Taking a token that is not the end leaves fewer of them. -/
theorem left_next_lt {l : Lookahead} (h : l.pending.kind ≠ .endOfInput) :
    l.next.2.left < l.left := by
  rw [next_snd_of_ne_endOfInput h,left,left,if_neg h]
  split
  · exact Nat.succ_pos _
  · next hnext => exact Nat.succ_lt_succ (Reader.next_length hnext)

end Lookahead

end GrammarCensus
