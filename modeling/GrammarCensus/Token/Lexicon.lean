import GrammarCensus.Token.Basic

/-!
# The lexicon

The lexical rules of specifications, in their order of precedence: the first
rule that applies to what is left of a text decides. Blanks and comments are
rules without a kind, so their characters are passed over. The main statements
say which rule applies to a text by its first characters, and that every text
begins with a piece that one of the rules finds.
-/

namespace GrammarCensus

namespace Lexicon

/-- The six characters that separate words: tab, newline, vertical tab, form
feed, carriage return and space. -/
def isBlank (c : Char) : Bool :=
  c = '\t' || c = '\n' || c = '\x0b' || c = '\x0c' || c = '\r' || c = ' '

/-- The first characters of the names of non-terminals. -/
def isLower (c : Char) : Bool :=
  decide ('a' ≤ c) && decide (c ≤ 'z')

/-- The first characters of the names of terminals. -/
def isUpper (c : Char) : Bool :=
  decide ('A' ≤ c) && decide (c ≤ 'Z')

/-- The characters of a name after its first one. Only ASCII letters and digits
count, and the underscore. -/
def isNameChar (c : Char) : Bool :=
  isLower c || isUpper c || (decide ('0' ≤ c) && decide (c ≤ '9')) || c = '_'

/-- The characters of a comment, which a newline ends. -/
def isCommentChar (c : Char) : Bool :=
  c ≠ '\n'

/-- One lexical rule. -/
structure Rule where
  /-- The kind of the token, or none where the piece is passed over. -/
  kind? : Option Token.Kind
  /-- The piece with which a text begins, where the rule applies to it. -/
  piece? : List Char → Option (List Char)

/-- Applies to the empty text only, with the empty piece. -/
def atEnd : List Char → Option (List Char)
  | [] => some []
  | _::_ => none

/-- Applies where one given character comes first. -/
def sign (s : Char) : List Char → Option (List Char)
  | [] => none
  | c::_ => if c = s then some [c] else none

/-- Applies where a character of the first class comes first, and takes all
the characters of the second class that follow it. -/
def run (first next : Char → Bool) : List Char → Option (List Char)
  | [] => none
  | c::text => if first c then some (c::text.takeWhile next) else none

/-- Applies where two slashes come first, and takes the rest of the line. -/
def comment : List Char → Option (List Char)
  | '/' :: '/' :: text => some ('/' :: '/' :: text.takeWhile isCommentChar)
  | _ => none

/-- Applies to any character. -/
def anyChar : List Char → Option (List Char)
  | [] => none
  | c::_ => some [c]

/-- The lexical rules, the first of which to apply decides. -/
def rules : List Rule :=
  [⟨some .endOfInput,atEnd⟩,
    ⟨none,run isBlank isBlank⟩,
    ⟨none,comment⟩,
    ⟨some .colon,sign ':'⟩,
    ⟨some .pipe,sign '|'⟩,
    ⟨some .semicolon,sign ';'⟩,
    ⟨some .nonTerminal,run isLower isNameChar⟩,
    ⟨some .terminal,run isUpper isNameChar⟩,
    ⟨some .error,anyChar⟩]

/-- What a text begins with. -/
structure Piece where
  /-- The kind of the token, or none where the piece is passed over. -/
  kind? : Option Token.Kind
  /-- The characters of the piece. -/
  text : List Char
deriving Repr, DecidableEq

/-- The piece of one rule, where it applies. -/
def Rule.leads (r : Rule) (text : List Char) : Option Piece :=
  (r.piece? text).map (⟨r.kind?,·⟩)

/-- The piece of the first rule that applies. -/
def matching? (text : List Char) : Option Piece :=
  rules.findSome? (·.leads text)

/-- The piece with which a text begins. Some rule applies to every text, so the
piece in place of a missing one, a stray first character, is never used. -/
def leading (text : List Char) : Piece :=
  (matching? text).getD ⟨some .error,text.take 1⟩

/-- The end of the text has an empty piece. -/
@[simp] theorem matching?_nil : matching? [] = some ⟨some .endOfInput,[]⟩ := rfl

/-- The rules by the first characters of a text. -/
theorem matching?_cons (c : Char) (text : List Char) :
    matching? (c::text) = some (
      if isBlank c then ⟨none,c::text.takeWhile isBlank⟩
      else if c = '/' ∧ text.head? = some '/' then
        ⟨none,c :: '/' :: text.tail.takeWhile isCommentChar⟩
      else if c = ':' then ⟨some .colon,[c]⟩
      else if c = '|' then ⟨some .pipe,[c]⟩
      else if c = ';' then ⟨some .semicolon,[c]⟩
      else if isLower c then ⟨some .nonTerminal,c::text.takeWhile isNameChar⟩
      else if isUpper c then ⟨some .terminal,c::text.takeWhile isNameChar⟩
      else ⟨some .error,[c]⟩) := by
  have hc : comment (c::text) =
      if c = '/' ∧ text.head? = some '/' then
        some (c :: '/' :: text.tail.takeWhile isCommentChar) else none := by
    cases text with
    | nil => simp [comment]
    | cons d text =>
      by_cases h : c = '/' ∧ d = '/'
      · obtain ⟨rfl,rfl⟩ := h
        simp [comment]
      · rw [if_neg (by simpa using h)]
        unfold comment
        split
        · simp_all
        · rfl
  simp only [matching?,rules,List.findSome?_cons,Rule.leads,atEnd,run,sign,anyChar,hc,
    Option.map_none]
  by_cases hblank : isBlank c
  · simp only [if_pos hblank,Option.map_some]
  by_cases hcomment : c = '/' ∧ text.head? = some '/'
  · simp only [if_neg hblank,if_pos hcomment,Option.map_some,Option.map_none]
  by_cases hcolon : c = ':'
  · simp only [if_neg hblank,if_neg hcomment,if_pos hcolon,Option.map_some,Option.map_none]
  by_cases hpipe : c = '|'
  · simp only [if_neg hblank,if_neg hcomment,if_neg hcolon,if_pos hpipe,Option.map_some,
      Option.map_none]
  by_cases hsemicolon : c = ';'
  · simp only [if_neg hblank,if_neg hcomment,if_neg hcolon,if_neg hpipe,if_pos hsemicolon,
      Option.map_some,Option.map_none]
  by_cases hlower : isLower c
  · simp only [if_neg hblank,if_neg hcomment,if_neg hcolon,if_neg hpipe,if_neg hsemicolon,
      if_pos hlower,Option.map_some,Option.map_none]
  by_cases hupper : isUpper c
  · simp only [if_neg hblank,if_neg hcomment,if_neg hcolon,if_neg hpipe,if_neg hsemicolon,
      if_neg hlower,if_pos hupper,Option.map_some,Option.map_none]
  simp only [if_neg hblank,if_neg hcomment,if_neg hcolon,if_neg hpipe,if_neg hsemicolon,
    if_neg hlower,if_neg hupper,Option.map_some,Option.map_none]

/-- Some rule applies to every text. -/
theorem matching?_isSome (text : List Char) : (matching? text).isSome := by
  cases text with
  | nil => rfl
  | cons c text => rw [matching?_cons]; rfl

/-- The leading piece is the one that the rules find. -/
theorem matching?_eq_leading (text : List Char) :
    matching? text = some (leading text) := by
  obtain ⟨p,hp⟩ := Option.isSome_iff_exists.mp (matching?_isSome text)
  simp [leading,hp]

/-- The end of the text has an empty piece. -/
@[simp] theorem leading_nil : leading [] = ⟨some .endOfInput,[]⟩ := rfl

/-- The leading piece by the first characters of a text. -/
theorem leading_cons (c : Char) (text : List Char) :
    leading (c::text) =
      if isBlank c then ⟨none,c::text.takeWhile isBlank⟩
      else if c = '/' ∧ text.head? = some '/' then
        ⟨none,c :: '/' :: text.tail.takeWhile isCommentChar⟩
      else if c = ':' then ⟨some .colon,[c]⟩
      else if c = '|' then ⟨some .pipe,[c]⟩
      else if c = ';' then ⟨some .semicolon,[c]⟩
      else if isLower c then ⟨some .nonTerminal,c::text.takeWhile isNameChar⟩
      else if isUpper c then ⟨some .terminal,c::text.takeWhile isNameChar⟩
      else ⟨some .error,[c]⟩ := by
  rw [leading,matching?_cons,Option.getD_some]

/-- A text that is not empty begins with a piece that is not empty. -/
theorem leading_cons_ne_nil (c : Char) (text : List Char) :
    (leading (c::text)).text ≠ [] := by
  rw [leading_cons]
  repeat' split
  all_goals simp

/-- The leading piece is the front part of its text. -/
theorem leading_prefix (text : List Char) : (leading text).text <+: text := by
  cases text with
  | nil => simp
  | cons c text =>
    have one : [c] <+: c::text := ⟨text,rfl⟩
    have more (p : Char → Bool) : c::text.takeWhile p <+: c::text :=
      List.cons_prefix_cons.mpr ⟨rfl,List.takeWhile_prefix p⟩
    rw [leading_cons]
    repeat' split
    · exact more _
    next h =>
      obtain ⟨_,h⟩ := h
      cases text with
      | nil => simp at h
      | cons d text =>
        obtain rfl : d = '/' := by simpa using h
        exact List.cons_prefix_cons.mpr ⟨rfl,List.cons_prefix_cons.mpr
          ⟨rfl,List.takeWhile_prefix _⟩⟩
    · exact one
    · exact one
    · exact one
    · exact more _
    · exact more _
    · exact one

/-- A passed-over piece is not empty. -/
theorem leading_skipped_ne_nil {text : List Char} (h : (leading text).kind? = none) :
    (leading text).text ≠ [] := by
  cases text with
  | nil => simp at h
  | cons c text => exact leading_cons_ne_nil c text

/-- The end of the text is found there only. -/
theorem leading_kind?_endOfInput {text : List Char}
    (h : (leading text).kind? = some .endOfInput) : text = [] := by
  cases text with
  | nil => rfl
  | cons c text =>
    rw [leading_cons] at h
    repeat' split at h
    all_goals simp at h

end Lexicon

end GrammarCensus
