import Mathlib.Data.List.Chain
import GrammarCensus.Proofs.Legibility
import GrammarCensus.Proofs.Reading

/-!
# Tokens tile their text

The spans of tokens are stretches of the text between boundaries of characters,
one behind the other, and what a token stands for is what its span marks. What
the spans leave out in between is layout and nothing else. The main statement
says this of all tokens that successive readings give, so that the text is put
together again from layouts and lexemes in turn.
-/

namespace GrammarCensus

/-- An offset in bytes lies between two characters of a text, or at one of its ends. -/
def IsBoundary (text : List Char) (offset : Nat) : Prop :=
  ∃ front rest, text = front++rest ∧ byteLength front = offset

/-- The stretches that tokens leave out in front of each of them, from an offset on. -/
def gapSpans (start : Nat) : List Token → List Span
  | [] => []
  | t::tokens => ⟨start,t.span.start⟩::gapSpans t.span.stop tokens

/-- Some tokens and the end of the text, with the layout in between, are the whole
of a text. -/
structure Tiles (text : List Char) (tokens : List Token) (last : Token) : Prop where
  /-- Spans lie between boundaries, and no span ends before it begins. -/
  boundaries : ∀ t ∈ tokens++[last], IsBoundary text t.span.start ∧
    IsBoundary text t.span.stop ∧ t.span.start ≤ t.span.stop
  /-- What a token has for its lexeme is not empty, and lies where its span says. -/
  lexemes : ∀ t ∈ tokens, t.span.start < t.span.stop ∧
    t.span.slice text = some t.lexeme.toList
  /-- The end has an empty span behind the last character, and a lexeme of its own. -/
  ending : last.span = ⟨byteLength text,byteLength text⟩ ∧ last.lexeme = "<EOF>"
  /-- No token begins before the one in front of it ends. -/
  ordered : (tokens++[last]).IsChain fun t u => t.span.stop ≤ u.span.start
  /-- The stretches in between are layout, in which only the end of the text may cut a
  comment short, and layouts and lexemes in turn are the text. -/
  gaps : ∃ layouts final,
    (gapSpans 0 (tokens++[last])).map (·.slice text) = (layouts++[final]).map some ∧
    (∀ layout ∈ layouts, Layout layout) ∧ FinalLayout final ∧
    text = (List.zipWith (fun layout t => layout++t.lexeme.toList) layouts tokens).flatten++final

namespace Span

/-- A part of a text is marked by the bytes in front of it and its own. -/
theorem slice_append (front part rest : List Char) :
    slice ⟨byteLength front,byteLength front+byteLength part⟩ (front++(part++rest)) =
      some part := by
  unfold slice guard
  simp [splitAt?_append]

/-- A span that marks a part of a text does not end before it begins. -/
theorem start_le_stop_of_slice {s : Span} {text part : List Char} (h : s.slice text = some part) :
    s.start ≤ s.stop := by
  by_contra hlt
  unfold slice guard at h
  rw [if_neg hlt] at h
  cases h

end Span

/-- A text that is not empty takes bytes. -/
theorem byteLength_pos {text : List Char} (h : text ≠ []) : 0 < byteLength text := by
  cases text with
  | nil => exact absurd rfl h
  | cons c text =>
    rw [byteLength_cons]
    exact Nat.add_pos_left c.utf8Size_pos _

/-- Tokens lie one behind the other where every stretch in between has a beginning
before its end. -/
theorem isChain_of_gapSpans (start : Nat) {tokens : List Token}
    (h : ∀ s ∈ gapSpans start tokens, s.start ≤ s.stop) :
    tokens.IsChain fun t u => t.span.stop ≤ u.span.start := by
  induction tokens generalizing start with
  | nil => exact .nil
  | cons t tokens ih =>
    have htail := (List.forall_mem_cons.mp h).2
    refine List.isChain_cons.mpr ⟨fun u hu => ?_,ih _ htail⟩
    obtain ⟨others,rfl⟩ := List.head?_eq_some_iff.mp hu
    exact htail _ List.mem_cons_self

/-- What is written behind some words is the last stretch of their text. -/
theorem written_append (placed : List Placed) (first second : List Char) :
    written placed (first++second) = written placed first++second := by
  induction placed with
  | nil => rfl
  | cons p placed ih => rw [written,written,ih,List.append_assoc,List.append_assoc]

/-- Words that are written in two parts are written in one. -/
theorem written_append_placed (first second : List Placed) (final : List Char) :
    written (first++second) final = written first (written second final) := by
  induction first with
  | nil => rfl
  | cons p first ih => rw [List.cons_append,written,written,ih]

/-- What separates legible words is layout, also at the end. -/
theorem Legible.layouts {final : List Char} {placed : List Placed} (h : Legible final placed) :
    (∀ p ∈ placed, Layout p.layout) ∧ FinalLayout final := by
  induction placed with
  | nil => exact ⟨fun _ hp => absurd hp List.not_mem_nil,h⟩
  | cons p placed ih =>
    obtain ⟨hlayout,_,_,hplaced⟩ := h
    exact ⟨List.forall_mem_cons.mpr ⟨hlayout,(ih hplaced).1⟩,(ih hplaced).2⟩

/-- The text of some words is their layouts and lexemes in turn. -/
theorem written_eq_flatten (placed : List Placed) (final : List Char) :
    written placed final =
      (placed.map fun p => p.layout++p.word.lexeme.toList).flatten++final := by
  induction placed with
  | nil => rfl
  | cons p placed ih =>
    rw [written,ih,List.map_cons,List.flatten_cons,List.append_assoc,List.append_assoc]

/-- Layouts and the lexemes of tokens in turn are those of placed words, if the tokens
are these words. -/
theorem zipWith_layouts {placed : List Placed} {tokens : List Token}
    (h : tokens.map Token.word = placed.map (·.word)) :
    List.zipWith (fun layout t => layout++t.lexeme.toList) (placed.map (·.layout)) tokens =
      placed.map fun p => p.layout++p.word.lexeme.toList := by
  calc List.zipWith (fun layout t => layout++t.lexeme.toList) (placed.map (·.layout)) tokens
      = List.zipWith (fun layout w => layout++w.lexeme.toList) (placed.map (·.layout))
          (tokens.map Token.word) := by
            rw [List.zipWith_map_right]
            rfl
    _ = placed.map fun p => p.layout++p.word.lexeme.toList := by
      rw [h,List.zipWith_map,List.zipWith_self]

namespace Reader

/-- Each token of placed words lies behind what is written in front of its word. -/
theorem exists_of_mem_placedTokens {placed : List Placed} {r : Reader} {t : Token}
    (h : t ∈ r.placedTokens placed) :
    ∃ before p behind, placed = before++p::behind ∧
      t = (r.pass (written before p.layout)).tokenAt p.word.kind p.word.lexeme.toList := by
  induction placed generalizing r with
  | nil => cases h
  | cons p placed ih =>
    rcases List.mem_cons.mp h with rfl|h
    · exact ⟨[],p,placed,rfl,rfl⟩
    · obtain ⟨before,q,behind,rfl,rfl⟩ := ih h
      refine ⟨p::before,q,behind,rfl,?_⟩
      rw [pass_pass,pass_pass,written]

/-- The stretches in front of the tokens of placed words are their layouts, and that in
front of the end is the last stretch of the text. -/
theorem slice_gapSpans {text front final : List Char} {placed : List Placed} {r : Reader}
    (htext : text = front++r.rest) (hoffset : r.offset = byteLength front)
    (hr : r.rest = written placed final) :
    (gapSpans r.offset (r.placedTokens placed++[r.endToken])).map (·.slice text) =
      (placed.map (·.layout)++[final]).map some := by
  induction placed generalizing front r with
  | nil =>
    have hslice := Span.slice_append front r.rest []
    rw [List.append_nil,←htext,←hoffset] at hslice
    have hgap : gapSpans r.offset [r.endToken] = [⟨r.offset,r.offset+byteLength r.rest⟩] := rfl
    rw [placedTokens,List.nil_append,hgap,List.map_singleton,hslice,hr]
    rfl
  | cons p placed ih =>
    have hlayout := Span.slice_append front p.layout
      (p.word.lexeme.toList++written placed final)
    have hword : (r.pass p.layout).rest = p.word.lexeme.toList++written placed final :=
      rest_pass hr
    have hbehind := rest_pass hword
    have htext' : text = (front++p.layout++p.word.lexeme.toList)++
        ((r.pass p.layout).pass p.word.lexeme.toList).rest := by
      rw [htext,hr,hbehind,written,List.append_assoc,List.append_assoc]
    have hoffset' : ((r.pass p.layout).pass p.word.lexeme.toList).offset =
        byteLength (front++p.layout++p.word.lexeme.toList) := by
      rw [byteLength_append,byteLength_append,←hoffset]
      rfl
    have hend : ((r.pass p.layout).pass p.word.lexeme.toList).endToken = r.endToken := by
      rw [endToken,endToken,atEnd_pass ⟨_,hword.symm⟩,atEnd_pass ⟨_,hr.symm⟩]
    have htail := ih htext' hoffset' hbehind
    rw [hend] at htail
    rw [placedTokens,List.cons_append,gapSpans,List.map_cons,List.map_cons,List.cons_append,
      List.map_cons]
    refine congrArg₂ List.cons ?_ htail
    rw [htext,hr,←hlayout,←hoffset]
    rfl

end Reader

/-- Every token of a text lies where the text in front of it ends, in bytes as well as
in lines and columns, and its lexeme comes next. -/
theorem exists_split_of_mem_tokens {text : String} {t : Token} (h : t ∈ tokens text) :
    ∃ front rest, text.toList = front++(t.lexeme.toList++rest) ∧
      t.span = ⟨byteLength front,byteLength front+byteLength t.lexeme.toList⟩ ∧
      t.position = Position.start.after front := by
  obtain ⟨placed,final,ht,hlegible⟩ := exists_legible text.toList
  have hr : (Reader.ofText text).rest = written placed final := ht
  rw [tokens,Reader.tokens_of_legible hr hlegible] at h
  obtain ⟨before,p,behind,rfl,rfl⟩ := Reader.exists_of_mem_placedTokens h
  have hclass := hlegible.inClass (List.mem_append_right before List.mem_cons_self)
  have hlexeme : ((Reader.ofText text).pass (written before p.layout) |>.tokenAt p.word.kind
      p.word.lexeme.toList).lexeme = p.word.lexeme := by
    simp [Reader.tokenAt,ne_endOfInput_of_inClass hclass]
  refine ⟨written before p.layout,written behind final,?_,?_,rfl⟩
  · rw [ht,hlexeme,written_append_placed,written,written_append]
  · rw [hlexeme]
    simp [Reader.tokenAt,Reader.pass,Reader.ofText]

/-- The end of a text has an empty span behind its last character. -/
theorem endToken_span (text : String) :
    (endToken text).span = ⟨byteLength text.toList,byteLength text.toList⟩ := by
  simp [endToken,Reader.endToken,Reader.atEnd,Reader.tokenAt,Reader.ofText]

/-- A token of a text lies between boundaries of characters, and its span is not empty. -/
theorem boundaries_of_mem_tokens {text : String} {t : Token} (h : t ∈ tokens text) :
    IsBoundary text.toList t.span.start ∧ IsBoundary text.toList t.span.stop ∧
      t.span.start < t.span.stop := by
  obtain ⟨front,rest,hsplit,hspan,_⟩ := exists_split_of_mem_tokens h
  have hpos := byteLength_pos (Lexicon.ne_nil_of_inClass (inClass_of_mem_tokens h))
  have hsplit' : text.toList = (front++t.lexeme.toList)++rest := by
    rw [hsplit,List.append_assoc]
  rw [hspan]
  exact ⟨⟨_,_,hsplit,rfl⟩,⟨_,_,hsplit',byteLength_append ..⟩,Nat.lt_add_of_pos_right hpos⟩

/-- A part in front of a text takes no more bytes than the text. -/
theorem byteLength_le_of_isPrefix {front text : List Char} (h : front <+: text) :
    byteLength front ≤ byteLength text := by
  obtain ⟨rest,rfl⟩ := h
  rw [byteLength_append]
  exact Nat.le_add_right ..

/-- A part in front of a text ends at a boundary. -/
theorem isBoundary_of_isPrefix {front text : List Char} (h : front <+: text) :
    IsBoundary text (byteLength front) := by
  obtain ⟨rest,rfl⟩ := h
  exact ⟨front,rest,rfl,rfl⟩

/-- The end of a text lies at a boundary. -/
theorem isBoundary_byteLength (text : List Char) : IsBoundary text (byteLength text) :=
  ⟨text,[],(List.append_nil text).symm,rfl⟩

/-- The tokens of a text tile it. -/
theorem tiles (text : String) : Tiles text.toList (tokens text) (endToken text) := by
  obtain ⟨placed,final,ht,hlegible⟩ := exists_legible text.toList
  have hr : (Reader.ofText text).rest = written placed final := ht
  have htokens : tokens text = (Reader.ofText text).placedTokens placed :=
    Reader.tokens_of_legible hr hlegible
  have hslices : (gapSpans 0 (tokens text++[endToken text])).map (·.slice text.toList) =
      (placed.map (·.layout)++[final]).map some := by
    rw [htokens]
    exact Reader.slice_gapSpans (List.nil_append _).symm rfl hr
  constructor
  case boundaries =>
    intro t h
    rcases List.mem_append.mp h with h|h
    · obtain ⟨hstart,hstop,hlt⟩ := boundaries_of_mem_tokens h
      exact ⟨hstart,hstop,le_of_lt hlt⟩
    · obtain rfl := List.mem_singleton.mp h
      rw [endToken_span]
      exact ⟨isBoundary_byteLength _,isBoundary_byteLength _,le_rfl⟩
  case lexemes =>
    intro t h
    obtain ⟨front,rest,hsplit,hspan,_⟩ := exists_split_of_mem_tokens h
    refine ⟨(boundaries_of_mem_tokens h).2.2,?_⟩
    rw [hspan,hsplit,Span.slice_append]
  case ending => exact ⟨endToken_span text,rfl⟩
  case ordered =>
    -- a stretch in between that can be cut out of the text begins before it ends
    refine isChain_of_gapSpans 0 fun s hs => ?_
    have hslice := List.mem_map_of_mem (f := (·.slice text.toList)) hs
    rw [hslices] at hslice
    obtain ⟨part,_,hpart⟩ := List.mem_map.mp hslice
    exact Span.start_le_stop_of_slice hpart.symm
  case gaps =>
    refine ⟨_,_,hslices,List.forall_mem_map.mpr hlegible.layouts.1,hlegible.layouts.2,?_⟩
    rw [zipWith_layouts (words_tokens ht hlegible),←written_eq_flatten,ht]

/-- The tokens that successive readings of a text give, up to the first one of the kind
of the end, tile the text: their spans lie between boundaries of characters, in order
and without overlap, mark the lexemes, and leave out layout only. -/
theorem allTokens_tile (text : String) :
    (allTokens text =
      (List.range (allTokens text).length).map fun n => ((Reader.ofText text).skip n).next.1) ∧
    (∀ t ∈ tokens text, t.kind ≠ .endOfInput) ∧ (endToken text).kind = .endOfInput ∧
    Tiles text.toList (tokens text) (endToken text) :=
  ⟨allTokens_eq_map_skip text,fun _ h => kind_ne_of_mem_tokens h,rfl,tiles text⟩

/-- The comment in front of the end is left out, and so is the blank in front of the stray
character of two bytes. -/
example : (gapSpans 0 (allTokens "a é//x")).map (·.slice "a é//x".toList) =
    [some [],some [' '],some ['/','/','x']] := by decide +kernel

end GrammarCensus
