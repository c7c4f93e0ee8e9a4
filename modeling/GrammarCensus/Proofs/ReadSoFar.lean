import GrammarCensus.Proofs.LineEnds
import GrammarCensus.Proofs.Tiling
import GrammarCensus.Proofs.Trace

/-!
# The text read so far

An error depends on the text up to the token at which it arises, and on one character
more, which decides whether that token ends there. The main statement is that a text shares
its error with every other text that has the same bytes up to the end of that token, and
behind them the same character or none.
-/

namespace GrammarCensus

open Lexicon

/-- The character at an offset in bytes. There is none behind the last character, nor where
the offset cuts one. -/
def characterAt? (text : List Char) (offset : Nat) : Option Char :=
  (Span.splitAt? offset text).bind (·.2.head?)

/-- Two texts have the same bytes up to an offset, and the same character there or none. -/
structure AgreeThrough (offset : Nat) (text other : String) : Prop where
  /-- The bytes up to the offset are the same. -/
  bytes : text.toByteArray.extract 0 offset = other.toByteArray.extract 0 offset
  /-- The character at the offset is the same, if there is one. -/
  next : characterAt? text.toList offset = characterAt? other.toList offset

/-- The character behind a part of a text. -/
theorem characterAt?_byteLength (front rest : List Char) :
    characterAt? (front++rest) (byteLength front) = rest.head? := by
  rw [characterAt?,Span.splitAt?_append]
  rfl

/-- A text is encoded in as many bytes as its characters take. -/
theorem size_utf8Encode (text : List Char) : text.utf8Encode.size = byteLength text := by
  induction text with
  | nil => rfl
  | cons c text ih =>
    have hone : [c].utf8Encode.size = c.utf8Size := by
      rw [List.utf8Encode_singleton,List.size_toByteArray,String.length_utf8EncodeChar]
    rw [List.utf8Encode_cons,ByteArray.size_append,hone,ih,byteLength_cons]

/-- A text that agrees with another one through a part in front begins with this part, and
goes on with the same character. -/
theorem AgreeThrough.exists_append {text other : String} {front rest : List Char}
    (htext : text.toList = front++rest) (h : AgreeThrough (byteLength front) text other) :
    ∃ rest', other.toList = front++rest' ∧ rest.head? = rest'.head? := by
  have hfront : other.toByteArray.extract 0 (byteLength front) = front.utf8Encode := by
    rw [←h.bytes,←String.utf8Encode_toList,htext,List.utf8Encode_append,
      ByteArray.extract_append_eq_left (size_utf8Encode front).symm]
  have hbytes : other.toByteArray.extract 0 (byteLength front)++
      other.toByteArray.extract (byteLength front) other.toByteArray.size = other.toByteArray := by
    rw [ByteArray.extract_append_extract,Nat.zero_min,ByteArray.extract_zero_max_size]
  rw [hfront,←String.utf8Encode_toList] at hbytes
  -- the encoding of a text begins with that of another one only where the text does
  obtain ⟨rest',hother⟩ := List.isPrefix_of_utf8Encode_append_eq_utf8Encode _ hbytes
  have hnext := h.next
  rw [htext,←hother,characterAt?_byteLength,characterAt?_byteLength] at hnext
  exact ⟨rest',hother.symm,hnext⟩

/-- What continues a lexeme is seen from the first character behind it. -/
theorem continues_congr {kind : Token.Kind} {text rest rest' : List Char}
    (h : rest.head? = rest'.head?) : Continues kind text rest ↔ Continues kind text rest' := by
  rw [Continues,Continues,h]

/-- What is written begins with the same character whatever its last stretch goes on with. -/
theorem head?_written_congr {final final' : List Char} (h : final.head? = final'.head?)
    (placed : List Placed) : (written placed final).head? = (written placed final').head? := by
  induction placed with
  | nil => exact h
  | cons p placed ih => simp only [written,List.head?_append,ih]

/-- Legible words stay legible where other ones come behind them that are written with the
same first character. -/
theorem Legible.append_congr {placed behind behind' : List Placed} {final final' : List Char}
    (h : Legible final (placed++behind)) (h' : Legible final' behind')
    (hhead : (written behind final).head? = (written behind' final').head?) :
    Legible final' (placed++behind') := by
  induction placed with
  | nil => exact h'
  | cons p placed ih =>
    rw [List.cons_append] at h ⊢
    obtain ⟨hlayout,hclass,hcontinues,hplaced⟩ := h
    rw [written_append_placed,continues_congr (head?_written_congr hhead placed),
      ←written_append_placed] at hcontinues
    exact ⟨hlayout,hclass,hcontinues,ih hplaced⟩

namespace Reader

/-- The tokens of words in two parts are those of the first part, and those of the second
one in their places behind it. -/
theorem placedTokens_append (r : Reader) (first second : List Placed) :
    r.placedTokens (first++second) =
      r.placedTokens first++(r.pass (written first [])).placedTokens second := by
  induction first generalizing r with
  | nil => rfl
  | cons p first ih =>
    have hpass : ((r.pass p.layout).pass p.word.lexeme.toList).pass (written first []) =
        r.pass (written (p::first) []) := by
      rw [pass_pass,pass_pass,written]
    rw [List.cons_append,placedTokens,ih,hpass]
    rfl

/-- Words whose tokens are taken apart come apart at the same place. -/
theorem placedTokens_eq_append {placed : List Placed} {r : Reader} {front back : List Token}
    {t : Token} (h : r.placedTokens placed = front++t::back) :
    ∃ before p behind, placed = before++p::behind ∧ r.placedTokens (before++[p]) = front++[t] ∧
      t.span.stop = r.offset+byteLength (written (before++[p]) []) := by
  induction front generalizing placed r with
  | nil =>
    cases placed with
    | nil => cases h
    | cons p placed =>
      obtain ⟨rfl,_⟩ := List.cons.inj h
      refine ⟨[],p,placed,rfl,rfl,?_⟩
      simp [tokenAt,pass,written,Nat.add_assoc]
  | cons u front ih =>
    cases placed with
    | nil => cases h
    | cons q placed =>
      obtain ⟨rfl,hbehind⟩ := List.cons.inj h
      obtain ⟨before,p,behind,rfl,htokens,hstop⟩ := ih hbehind
      refine ⟨q::before,p,behind,rfl,congrArg (_::·) htokens,?_⟩
      rw [hstop]
      simp [pass,written,Nat.add_assoc]

end Reader

/-- A text that agrees with another one through a token has this token too, and before it
the same ones. -/
theorem AgreeThrough.exists_tokens {text other : String} {front back : List Token} {t : Token}
    (h : tokens text = front++t::back) (hagree : AgreeThrough t.span.stop text other) :
    ∃ back', tokens other = front++t::back' := by
  obtain ⟨placed,final,htext,hlegible⟩ := exists_legible text.toList
  rw [tokens,Reader.tokens_of_legible htext hlegible] at h
  obtain ⟨before,p,behind,rfl,htokens,hstop⟩ := Reader.placedTokens_eq_append h
  have hwritten (behind : List Placed) (final : List Char) :
      written (before++p::behind) final = written (before++[p]) []++written behind final := by
    rw [←written_append,List.nil_append,←written_append_placed,List.append_assoc]
    rfl
  have hoffset : t.span.stop = byteLength (written (before++[p]) []) :=
    hstop.trans (Nat.zero_add _)
  rw [hoffset] at hagree
  obtain ⟨rest,hother,hhead⟩ := hagree.exists_append (htext.trans (hwritten behind final))
  -- what stands behind the token in the other text is written from words as well
  obtain ⟨behind',final',rfl,hlegible'⟩ := exists_legible rest
  have hrest : (Reader.ofText other).rest = written (before++p::behind') final' :=
    hother.trans (hwritten behind' final').symm
  rw [List.append_cons] at hlegible hrest
  have hsame : (Reader.ofText other).placedTokens (before++[p]) = front++[t] := by
    rw [←htokens]
    exact Reader.placedTokens_congr rfl rfl
  rw [tokens,Reader.tokens_of_legible hrest (hlegible.append_congr hlegible' hhead),
    Reader.placedTokens_append,hsame,List.append_assoc]
  exact ⟨_,rfl⟩

/-- The first token is the first of some tokens at the beginning of a text. -/
theorem firstToken_of_tokens {text : String} {front back : List Token} {t : Token}
    (h : tokens text = front++t::back) : firstToken text = (front++[t]).headD t := by
  rw [firstToken,h]
  cases front <;> rfl

/-- An error has the position of one token. If this is not the end, every text that agrees
with the given one through this token has the very same error. -/
theorem survey_error_of_agreeThrough {text : String} {e : SyntaxError}
    (h : survey text = .error e) :
    (∃! t, t ∈ allTokens text ∧ t.position = e.position) ∧
    ∀ t ∈ allTokens text, t.position = e.position → t.kind ≠ .endOfInput →
      ∀ other, AgreeThrough t.span.stop text other → survey other = .error e := by
  obtain ⟨front,t,back,p,hsplit,hrun,hstep,hend⟩ := exists_split_of_survey_error h
  have hplace : (allTokens text)[front.length]? = some t :=
    getElem?_eq_some_iff_split.mpr ⟨front,back,hsplit,rfl⟩
  have hposition : t.position = e.position := (Progress.position_of_step_error hstep).symm
  have hunique : ∀ u ∈ allTokens text, u.position = e.position → u = t := by
    intro u hu hsame
    obtain ⟨i,hi⟩ := List.mem_iff_getElem?.mp hu
    obtain rfl := eq_of_position_eq hi hplace (hsame.trans hposition.symm)
    exact Option.some.inj (hi.symm.trans hplace)
  refine ⟨⟨t,⟨List.mem_of_getElem? hplace,hposition⟩,fun u hu => hunique u hu.1 hu.2⟩,?_⟩
  intro u hu hsame hkind other hagree
  obtain rfl := hunique u hu hsame
  rcases allTokens_eq_append hsplit with ⟨others,htokens⟩|⟨_,rfl⟩
  · obtain ⟨back',hother⟩ := hagree.exists_tokens htokens
    rw [firstToken_of_tokens htokens,←firstToken_of_tokens hother] at hrun
    exact survey_error_of_split (allTokens_of_tokens hother) hrun hstep hend
  · exact absurd rfl hkind

/-- Whatever comes behind the blank behind a second definition, the definition is reported. -/
theorem survey_error_of_agreeThrough_redefined :
    survey "s : A ;\ns x" = .error (.redefined "s" ⟨2,1⟩ ⟨1,1⟩) ∧
    AgreeThrough 9 "s : A ;\ns x" "s : A ;\ns )é" ∧
    survey "s : A ;\ns )é" = .error (.redefined "s" ⟨2,1⟩ ⟨1,1⟩) := by
  have h : survey "s : A ;\ns x" = .error (.redefined "s" ⟨2,1⟩ ⟨1,1⟩) := by decide +kernel
  have hmem : ⟨.nonTerminal,"s",⟨8,9⟩,⟨2,1⟩⟩ ∈ allTokens "s : A ;\ns x" := by decide +kernel
  have hagree : AgreeThrough 9 "s : A ;\ns x" "s : A ;\ns )é" :=
    ⟨by decide +kernel,by decide +kernel⟩
  exact ⟨h,hagree,(survey_error_of_agreeThrough h).2 _ hmem rfl (by decide) _ hagree⟩

/-- The same bytes are not enough: the character behind them may go on with a name. -/
example : survey "s x" = .error (.unexpected ⟨1,3⟩ "x") ∧
    survey "s xy" = .error (.unexpected ⟨1,3⟩ "xy") := by decide +kernel

end GrammarCensus
