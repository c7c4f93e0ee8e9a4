import GrammarCensus.Token.Lexicon

/-!
# Reading tokens

A reader is a place in a text from which tokens are read one after the other.
It carries the byte offset and the position along, so a token knows where it
lies without a second look at the text. At the end of the text every further
reading answers the end again. The main statements say that the end token is
the one computed from the whole rest of the text, and that every other token
leaves less to read.
-/

namespace GrammarCensus

/-- A place in a text. -/
structure Reader where
  /-- The characters that are still to be read. -/
  rest : List Char
  /-- The number of bytes before them. -/
  offset : Nat
  /-- The position of the first of them. -/
  position : Position
deriving Repr, DecidableEq, Inhabited

namespace Reader

/-- The beginning of a text. -/
def ofText (text : String) : Reader :=
  ⟨text.toList,0,.start⟩

/-- The place after a piece with which the rest begins. -/
def pass (r : Reader) (piece : List Char) : Reader :=
  ⟨r.rest.drop piece.length,r.offset+byteLength piece,r.position.after piece⟩

/-- The piece at this place. -/
def piece (r : Reader) : Lexicon.Piece :=
  Lexicon.leading r.rest

/-- The piece is the front part of the rest. -/
theorem piece_prefix (r : Reader) : r.piece.text <+: r.rest :=
  Lexicon.leading_prefix r.rest

/-- A token of a kind whose characters stand at this place. -/
def tokenAt (r : Reader) (kind : Token.Kind) (text : List Char) : Token where
  kind := kind
  lexeme := if kind = .endOfInput then Token.endLexeme else String.ofList text
  span := ⟨r.offset,r.offset+byteLength text⟩
  position := r.position

/-- Passing a skipped piece leaves less to read. -/
theorem pass_skipped_length {r : Reader} (h : r.piece.kind? = none) :
    (r.pass r.piece.text).rest.length < r.rest.length := by
  have hne := Lexicon.leading_skipped_ne_nil h
  have hp := List.length_pos_iff.mpr hne
  have hr : 0 < r.rest.length :=
    Nat.lt_of_lt_of_le hp (Lexicon.leading_prefix r.rest).length_le
  simp only [pass,piece,List.length_drop]
  omega

/-- The token at this place, after blanks and comments, and the place behind it. -/
def next (r : Reader) : Token × Reader :=
  match h : r.piece.kind? with
  | none =>
    have := pass_skipped_length h
    (r.pass r.piece.text).next
  | some kind => (r.tokenAt kind r.piece.text,r.pass r.piece.text)
termination_by r.rest.length

/-- A skipped piece does not change what comes next. -/
theorem next_of_skipped {r : Reader} (h : r.piece.kind? = none) :
    r.next = (r.pass r.piece.text).next := by
  rw [next]
  split
  · rfl
  · simp_all

/-- A piece of a kind is the next token. -/
theorem next_of_kind {r : Reader} {kind : Token.Kind} (h : r.piece.kind? = some kind) :
    r.next = (r.tokenAt kind r.piece.text,r.pass r.piece.text) := by
  rw [next]
  split
  · simp_all
  · simp_all

/-- The place behind the whole text. -/
def atEnd (r : Reader) : Reader :=
  ⟨[],r.offset+byteLength r.rest,r.position.after r.rest⟩

/-- The token of the end of the text. -/
def endToken (r : Reader) : Token :=
  r.atEnd.tokenAt .endOfInput []

/-- Passing a piece does not move the end of the text. -/
theorem atEnd_pass {r : Reader} {piece : List Char} (h : piece <+: r.rest) :
    (r.pass piece).atEnd = r.atEnd := by
  obtain ⟨rest,hr⟩ := h
  simp only [atEnd,pass,←hr,List.drop_left,byteLength_append,Position.after_append,
    Nat.add_assoc]

/-- Reading a token does not move the end of the text. -/
theorem atEnd_next (r : Reader) : r.next.2.atEnd = r.atEnd := by
  fun_induction next r with
  | case1 r h _ ih => rw [ih,atEnd_pass r.piece_prefix]
  | case2 r kind h => exact atEnd_pass r.piece_prefix

/-- The next token is the end only at the end of the text, where the reader
stays. -/
theorem next_of_endOfInput {r : Reader} (h : r.next.1.kind = .endOfInput) :
    r.next = (r.endToken,r.atEnd) := by
  fun_induction next r with
  | case1 r hk _ ih =>
    rw [ih h,endToken,endToken,atEnd_pass r.piece_prefix]
  | case2 r kind hk =>
    obtain rfl : kind = .endOfInput := h
    have hr := Lexicon.leading_kind?_endOfInput hk
    simp [piece,hr,pass,endToken,atEnd,tokenAt]

/-- Reading any other token leaves less to read. -/
theorem next_length {r : Reader} (h : r.next.1.kind ≠ .endOfInput) :
    r.next.2.rest.length < r.rest.length := by
  fun_induction next r with
  | case1 r hk hlt ih => exact Nat.lt_trans (ih h) hlt
  | case2 r kind hk =>
    have hne : (Lexicon.leading r.rest).text ≠ [] := by
      cases hr : r.rest with
      | nil =>
        simp only [piece,hr,Lexicon.leading_nil,Option.some.injEq] at hk
        exact absurd hk.symm h
      | cons c text => exact Lexicon.leading_cons_ne_nil c text
    have hp := List.length_pos_iff.mpr hne
    have hr : 0 < r.rest.length :=
      Nat.lt_of_lt_of_le hp (Lexicon.leading_prefix r.rest).length_le
    simp only [pass,piece,List.length_drop]
    omega

/-- The next token, or none at the end of the text. -/
def next? (r : Reader) : Option Token × Reader :=
  let (token,reader) := r.next
  (if token.kind = .endOfInput then none else some token,reader)

/-- All tokens from this place on, without the end of the text. -/
def tokens (r : Reader) : List Token :=
  match h : r.next with
  | (token,reader) =>
    if hk : token.kind = .endOfInput then []
    else
      have : reader.rest.length < r.rest.length := by
        have hl := next_length (r := r) (by rw [h]; exact hk)
        rwa [h] at hl
      token::reader.tokens
termination_by r.rest.length

/-- Where the end comes next there are no tokens left. -/
theorem tokens_of_endOfInput {r : Reader} (h : r.next.1.kind = .endOfInput) :
    r.tokens = [] := by
  rw [tokens]
  exact dif_pos h

/-- Elsewhere the tokens are the next one and those behind it. -/
theorem tokens_of_ne_endOfInput {r : Reader} (h : r.next.1.kind ≠ .endOfInput) :
    r.tokens = r.next.1::r.next.2.tokens := by
  rw [tokens]
  exact dif_neg h

/-- All tokens that are left, and the end of the text, where reading them leads. -/
def drain (r : Reader) : List Token × Reader :=
  (r.tokens,r.atEnd)

/-- The place after reading a number of tokens, which is the end of the text if
there are fewer of them. -/
def skip (r : Reader) : Nat → Reader
  | 0 => r
  | n+1 =>
    let (token,reader) := r.next
    if token.kind = .endOfInput then reader else reader.skip n

end Reader

/-- The tokens of a text, without its end. -/
def tokens (text : String) : List Token :=
  (Reader.ofText text).tokens

/-- The token of the end of a text. -/
def endToken (text : String) : Token :=
  (Reader.ofText text).endToken

/-- The tokens of a text, its end being the last of them. -/
def allTokens (text : String) : List Token :=
  tokens text++[endToken text]

end GrammarCensus
