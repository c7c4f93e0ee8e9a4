import GrammarCensus.Proofs.Legibility

/-!
# Reading on behind a line end

A newline behind a text ends the comment or the name that the text may end with,
and belongs to no token itself. The main statement is that a text with a newline
and more behind it has the tokens that it has alone, each in its place, and then
those that are read from behind the newline.
-/

namespace GrammarCensus

open Lexicon

/-- A newline closes the last comment of layout. -/
theorem FinalLayout.append_newline {final : List Char} (h : FinalLayout final) :
    Layout (final++['\n']) := by
  cases h with
  | closed h => exact h.append (.blank rfl .nothing)
  | @opened layout body h hb =>
    rw [List.append_assoc]
    exact h.append (.comment hb .nothing)

/-- What does not continue a lexeme does not so with a newline behind it. -/
theorem not_continues_append_newline {kind : Token.Kind} {text rest : List Char}
    (h : ¬Continues kind text rest) (more : List Char) :
    ¬Continues kind text (rest++ '\n' :: more) := by
  cases rest with
  | nil =>
    rintro (⟨_,c,hc,hname⟩|⟨_,hslash⟩)
    · obtain rfl : '\n' = c := Option.some.inj hc
      exact absurd hname (by decide)
    · exact absurd (Option.some.inj hslash) (by decide)
  | cons c rest => exact h

namespace Reader

/-- The tokens of placed words depend on the place from which they are read, and not on
what stands there. -/
theorem placedTokens_congr {placed : List Placed} {r r' : Reader}
    (hoffset : r.offset = r'.offset) (hposition : r.position = r'.position) :
    r.placedTokens placed = r'.placedTokens placed := by
  induction placed generalizing r r' with
  | nil => rfl
  | cons p placed ih =>
    rw [placedTokens,placedTokens]
    refine congrArg₂ List.cons ?_ (ih ?_ ?_)
    · simp only [tokenAt,pass,hoffset,hposition]
    · simp only [pass,hoffset]
    · simp only [pass,hposition]

/-- With a newline behind them legible words are read as without, and what stands behind
the newline is read on. -/
theorem tokens_of_legible_newline {placed : List Placed} {final more : List Char} {r : Reader}
    (hr : r.rest = written placed final++ '\n' :: more) (h : Legible final placed) :
    r.tokens = r.placedTokens placed++(r.pass (written placed final++['\n'])).tokens := by
  induction placed generalizing r with
  | nil =>
    have hline : r.rest = (final++['\n'])++more := by
      rw [hr,written,List.append_assoc]
      rfl
    exact tokens_pass_layout (FinalLayout.append_newline h) hline
  | cons p placed ih =>
    obtain ⟨hlayout,hclass,hcontinues,hplaced⟩ := h
    have hsplit : r.rest =
        p.layout++(p.word.lexeme.toList++(written placed final++ '\n' :: more)) := by
      rw [hr,written,List.append_assoc,List.append_assoc]
    have hpass : ((r.pass p.layout).pass p.word.lexeme.toList).pass
        (written placed final++['\n']) = r.pass (written (p::placed) final++['\n']) := by
      rw [pass_pass,pass_pass,written,List.append_assoc,List.append_assoc]
    rw [tokens_of_placed hsplit hlayout hclass (not_continues_append_newline hcontinues more),
      ih (rest_pass (rest_pass hsplit)) hplaced,hpass]
    rfl

end Reader

/-- A text with a newline and more behind it has the tokens of the text, and then those
that are read from behind the newline. -/
theorem tokens_append_newline (text more : String) :
    tokens (text++"\n"++more) = tokens text++
      (Reader.mk more.toList (byteLength text.toList+1)
        (Position.start.after (text.toList++['\n']))).tokens := by
  obtain ⟨placed,final,ht,hlegible⟩ := exists_legible text.toList
  have hr : (Reader.ofText text).rest = written placed final := ht
  have hr' : (Reader.ofText (text++"\n"++more)).rest =
      written placed final++ '\n' :: more.toList := by
    simp [Reader.ofText,ht]
  have hpass : (Reader.ofText (text++"\n"++more)).pass (written placed final++['\n']) =
      ⟨more.toList,byteLength text.toList+1,Position.start.after (text.toList++['\n'])⟩ := by
    have hsize : '\n'.utf8Size = 1 := rfl
    simp [Reader.ofText,Reader.pass,←ht,hsize]
  rw [tokens,tokens,Reader.tokens_of_legible_newline hr' hlegible,hpass,
    Reader.tokens_of_legible hr hlegible]
  exact congrArg (·++_) (Reader.placedTokens_congr rfl rfl)

end GrammarCensus
