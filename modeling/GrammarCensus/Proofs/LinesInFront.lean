import GrammarCensus.Proofs.LineEnds
import GrammarCensus.Proofs.Reading

/-!
# Whole lines in front of a text

Lines that are put in front of a text move everything behind them down, by as many
lines, and on, by as many bytes, while the columns stay. The main statement is that
the tokens of whole lines and a text behind them are those of the lines and, moved,
those of the text, its end too. So layout that is put in between changes no word.
-/

namespace GrammarCensus

namespace Position

/-- The same column, some lines further down. -/
def below (p : Position) (lines : Nat) : Position := ⟨p.line+lines,p.column⟩

/-- A character moves a position further down as it does the one above it. -/
theorem step_below (p : Position) (lines : Nat) (c : Char) :
    (p.below lines).step c = (p.step c).below lines := by
  simp only [step,below]
  split
  · rw [Nat.add_right_comm]
  · rfl

/-- A text moves a position further down as it does the one above it. -/
theorem after_below (p : Position) (lines : Nat) (text : List Char) :
    (p.below lines).after text = (p.after text).below lines := by
  induction text generalizing p with
  | nil => rfl
  | cons c text ih => rw [after_cons,step_below,ih,after_cons]

/-- Each newline of a text leads one line down, and nothing else does. -/
theorem line_after (p : Position) (text : List Char) :
    (p.after text).line = p.line+text.count '\n' := by
  induction text generalizing p with
  | nil => rfl
  | cons c text ih =>
    have hstep : (p.step c).line = p.line+if c = '\n' then 1 else 0 := by
      rw [step]
      split <;> rfl
    have hcount : (c::text).count '\n' = text.count '\n'+if c = '\n' then 1 else 0 := by
      simp [List.count_cons]
    rw [after_cons,ih,hstep,hcount]
    omega

/-- Behind whole lines the first column comes again. -/
theorem after_newline (text : List Char) :
    start.after (text++['\n']) = start.below (text.count '\n'+1) := by
  have hline : (start.after (text++['\n'])).line = start.line+(text.count '\n'+1) := by
    rw [line_after,List.count_append]
    rfl
  have hcolumn : (start.after (text++['\n'])).column = start.column := by
    rw [after_append]
    rfl
  rw [below,←hline]
  rw [←hcolumn]

end Position

/-- A text of whole lines: it is empty, or a newline ends it. -/
def WholeLines (text : String) : Prop :=
  text = "" ∨ ∃ line, text = line++"\n"

/-- Behind whole lines the first column comes again, as many lines further down as they
have newlines. -/
theorem Position.start_after_of_wholeLines {lines : String} (h : WholeLines lines) :
    start.after lines.toList = start.below (lines.toList.count '\n') := by
  rcases h with rfl|⟨line,rfl⟩
  · rfl
  · have hnewline : "\n".toList = ['\n'] := rfl
    rw [String.toList_append,hnewline,after_newline,List.count_append]
    rfl

/-- The same token with some bytes and whole lines in front of its text. -/
def Token.below (t : Token) (bytes lines : Nat) : Token :=
  ⟨t.kind,t.lexeme,⟨t.span.start+bytes,t.span.stop+bytes⟩,t.position.below lines⟩

namespace Reader

/-- The same place with some bytes and whole lines in front of the text. -/
def below (r : Reader) (bytes lines : Nat) : Reader :=
  ⟨r.rest,r.offset+bytes,r.position.below lines⟩

variable (bytes lines : Nat)

/-- Behind a piece everything is moved as before it. -/
theorem pass_below (r : Reader) (piece : List Char) :
    (r.below bytes lines).pass piece = (r.pass piece).below bytes lines := by
  simp only [pass,below,Position.after_below,Nat.add_right_comm]

/-- What stands at a moved place is the moved token. -/
theorem tokenAt_below (r : Reader) (kind : Token.Kind) (text : List Char) :
    (r.below bytes lines).tokenAt kind text = (r.tokenAt kind text).below bytes lines := by
  simp only [tokenAt,below,Token.below,Nat.add_right_comm]

/-- The next token is moved with the place from which it is read. -/
theorem next_below (r : Reader) : (r.below bytes lines).next =
    (r.next.1.below bytes lines,r.next.2.below bytes lines) := by
  fun_induction next r with
  | case1 r h _ ih =>
    have hskipped : (r.below bytes lines).piece.kind? = none := h
    rw [next_of_skipped hskipped,←ih,←pass_below]
    rfl
  | case2 r kind h =>
    have hkind : (r.below bytes lines).piece.kind? = some kind := h
    rw [next_of_kind hkind,←pass_below,←tokenAt_below]
    rfl

/-- All tokens are moved with the place from which they are read. -/
theorem tokens_below (r : Reader) :
    (r.below bytes lines).tokens = r.tokens.map (·.below bytes lines) := by
  induction r using tokens_induction with
  | endOfInput r hr =>
    have hend : (r.below bytes lines).next.1.kind = .endOfInput := by
      rw [next_below]
      exact hr
    rw [tokens_of_endOfInput hend,List.map_nil]
  | token r hr ih =>
    have hkind : (r.below bytes lines).next.1.kind ≠ .endOfInput := by
      rw [next_below]
      exact hr
    rw [tokens_of_ne_endOfInput hkind,next_below,List.map_cons,←ih]

/-- The end is moved with the place from which it is read. -/
theorem endToken_below (r : Reader) :
    (r.below bytes lines).endToken = r.endToken.below bytes lines := by
  have hend : (r.below bytes lines).atEnd = r.atEnd.below bytes lines := by
    simp only [atEnd,below,Position.after_below,Nat.add_right_comm]
  rw [endToken,hend,tokenAt_below,endToken]

/-- Which words are read depends on what stands at a place, and not on the place. -/
theorem words_congr {r r' : Reader} (h : r.rest = r'.rest) :
    r.tokens.map Token.word = r'.tokens.map Token.word := by
  obtain ⟨placed,final,hrest,hlegible⟩ := exists_legible r'.rest
  have hkinds : ∀ p ∈ placed, p.word.kind ≠ .endOfInput :=
    fun p hp => ne_endOfInput_of_inClass (hlegible.inClass hp)
  rw [tokens_of_legible (h.trans hrest) hlegible,tokens_of_legible hrest hlegible,
    words_placedTokens hkinds,words_placedTokens hkinds]

/-- Behind whole lines the text is read as it is alone, further down. -/
theorem pass_wholeLines {lines : String} (h : WholeLines lines) (text : String) :
    (ofText (lines++text)).pass lines.toList =
      (ofText text).below (byteLength lines.toList) (lines.toList.count '\n') := by
  simp only [pass,below,ofText,String.toList_append,List.drop_left,
    Position.start_after_of_wholeLines h]

end Reader

section Moved

variable (bytes lines : Nat)

/-- Moved tokens are the same words. -/
theorem words_below (tokens : List Token) :
    (tokens.map (·.below bytes lines)).map Token.word = tokens.map Token.word :=
  List.map_map

/-- Moved tokens are of the same kinds. -/
theorem kinds_below (tokens : List Token) :
    (tokens.map (·.below bytes lines)).map (·.kind) = tokens.map (·.kind) :=
  List.map_map

/-- Moved tokens are as many of each kind. -/
theorem countP_below (tokens : List Token) (kind : Token.Kind) :
    (tokens.map (·.below bytes lines)).countP (·.kind = kind) =
      tokens.countP (·.kind = kind) :=
  List.countP_map

end Moved

/-- The number of lines that a text takes with a newline behind it. -/
def lineCount (text : String) : Nat :=
  1+text.toList.count '\n'

/-- The tokens of a text with a newline and a second text behind it are its own, and
those of the second text with the lines of the first one in front. -/
theorem tokens_append_newline_below (text more : String) :
    tokens (text++"\n"++more) = tokens text++
      (tokens more).map (·.below (byteLength text.toList+1) (lineCount text)) := by
  have hplace : Reader.mk more.toList (byteLength text.toList+1)
      (Position.start.after (text.toList++['\n'])) =
        (Reader.ofText more).below (byteLength text.toList+1) (lineCount text) := by
    rw [Position.after_newline,lineCount,Nat.add_comm 1]
    simp only [Reader.below,Reader.ofText,Nat.zero_add]
  rw [tokens_append_newline,hplace,Reader.tokens_below]
  rfl

/-- A newline at the end of a text is no token. -/
theorem tokens_newline (line : String) : tokens (line++"\n") = tokens line := by
  have hline := tokens_append_newline line ""
  rwa [Reader.tokens_of_rest_eq_nil rfl,List.append_nil,String.append_empty] at hline

/-- Layout in front of a text changes none of its words. -/
theorem words_append_layout {layout : String} (h : Layout layout.toList) (text : String) :
    (allTokens (layout++text)).map Token.word = (allTokens text).map Token.word := by
  have hrest : (Reader.ofText (layout++text)).rest = layout.toList++text.toList :=
    String.toList_append ..
  have hwords : (tokens (layout++text)).map Token.word = (tokens text).map Token.word := by
    rw [tokens,Reader.tokens_pass_layout h hrest]
    exact Reader.words_congr (Reader.rest_pass hrest)
  rw [allTokens,List.map_append,hwords,allTokens,List.map_append]
  rfl

section WholeLines

variable {lines : String} (h : WholeLines lines) (text : String)

include h

/-- Behind whole lines the tokens of a text are those that it has alone, moved. -/
theorem tokens_append_of_wholeLines :
    tokens (lines++text) = tokens lines++
      (tokens text).map (·.below (byteLength lines.toList) (lines.toList.count '\n')) := by
  rcases h with rfl|⟨line,rfl⟩
  · have hnone : tokens "" = [] := Reader.tokens_of_rest_eq_nil rfl
    rw [hnone,String.empty_append]
    exact Reader.tokens_below 0 0 (Reader.ofText text)
  · have hbytes : byteLength (line++"\n").toList = byteLength line.toList+1 := by
      rw [String.toList_append,byteLength_append]
      rfl
    have hlines : (line++"\n").toList.count '\n' = lineCount line := by
      rw [String.toList_append,List.count_append,lineCount,Nat.add_comm]
      rfl
    rw [hbytes,hlines,tokens_newline,tokens_append_newline_below]

/-- Behind whole lines the end of a text is the one that it has alone, moved. -/
theorem endToken_append_of_wholeLines :
    endToken (lines++text) =
      (endToken text).below (byteLength lines.toList) (lines.toList.count '\n') := by
  have hfront : lines.toList <+: (Reader.ofText (lines++text)).rest :=
    ⟨text.toList,(String.toList_append ..).symm⟩
  rw [endToken,Reader.endToken,←Reader.atEnd_pass hfront,Reader.pass_wholeLines h,
    ←Reader.endToken,Reader.endToken_below]
  rfl

/-- Behind whole lines a text has the words that it has alone. -/
theorem words_append_of_wholeLines :
    (allTokens (lines++text)).map Token.word =
      (tokens lines).map Token.word++(allTokens text).map Token.word := by
  rw [allTokens,tokens_append_of_wholeLines h,endToken_append_of_wholeLines h,List.append_assoc,
    List.map_append,List.map_append,words_below,allTokens,List.map_append]
  rfl

end WholeLines

/-- The tokens of whole lines and a text behind them are those of the lines and, as many
bytes and lines further on, those of the text, its end as well. Where layout is put in
between, such as blank lines and lines with a comment, all words stay the same. -/
theorem allTokens_append_of_wholeLines {lines : String} (h : WholeLines lines) (text : String) :
    tokens (lines++text) = tokens lines++
      (tokens text).map (·.below (byteLength lines.toList) (lines.toList.count '\n')) ∧
    endToken (lines++text) =
      (endToken text).below (byteLength lines.toList) (lines.toList.count '\n') ∧
    ∀ inserted : String, Layout inserted.toList →
      (allTokens (lines++inserted++text)).map Token.word =
        (allTokens (lines++text)).map Token.word := by
  refine ⟨tokens_append_of_wholeLines h text,endToken_append_of_wholeLines h text,?_⟩
  intro inserted hinserted
  rw [String.append_assoc,words_append_of_wholeLines h,words_append_of_wholeLines h,
    words_append_layout hinserted]

/-- The comment has a character of two bytes, and the blanks at its end go on in the text.
A blank line and a line with a comment come in between. -/
theorem allTokens_append_of_wholeLines_comment :
    tokens ("s // é\n"++"\n: A") = [⟨.nonTerminal,"s",⟨0,1⟩,⟨1,1⟩⟩,⟨.colon,":",⟨9,10⟩,⟨3,1⟩⟩,
      ⟨.terminal,"A",⟨11,12⟩,⟨3,3⟩⟩] ∧
    endToken ("s // é\n"++"\n: A") = ⟨.endOfInput,"<EOF>",⟨12,12⟩,⟨3,4⟩⟩ ∧
    (allTokens ("s // é\n"++" \n// x\n"++"\n: A")).map Token.word =
      (allTokens ("s // é\n"++"\n: A")).map Token.word := by
  have hlines : WholeLines "s // é\n" := Or.inr ⟨"s // é",rfl⟩
  have hbody : ∀ c ∈ [' ','x'], Lexicon.isCommentChar c := by simp [Lexicon.isCommentChar]
  have hinserted : Layout " \n// x\n".toList :=
    .blank rfl (.blank rfl (.comment hbody .nothing))
  obtain ⟨htokens,hend,hwords⟩ := allTokens_append_of_wholeLines hlines "\n: A"
  refine ⟨?_,?_,hwords _ hinserted⟩
  · rw [htokens]
    decide +kernel
  · rw [hend]
    decide +kernel

end GrammarCensus
