import GrammarCensus.Program
import GrammarCensus.Proofs.Cursors
import GrammarCensus.Proofs.Tiling

/-!
# Reading comes to an end

A reader goes from piece to piece, and what it passes over on the way to a token are pieces
as well. Some rule finds a piece in every text, and every piece but the end takes some of
the text, so from each place the next token is only a few pieces away. The main statement
is that all of this stays within the text and comes to the end of it, at the latest after
as many tokens as there are characters.
-/

namespace GrammarCensus

namespace Lexicon

/-- A text begins with a piece that leads on. -/
structure GoesOn (text : List Char) : Prop where
  /-- There is a character left. -/
  ne_nil : text ≠ []
  /-- A rule other than that for the end finds the piece. -/
  rule : ∃ rule ∈ rules, rule.kind? ≠ some .endOfInput ∧ rule.leads text = some (leading text)
  /-- The piece takes at least one byte. -/
  pos : 0 < byteLength (leading text).text
  /-- The piece takes no more bytes than there are. -/
  le : byteLength (leading text).text ≤ byteLength text
  /-- The piece ends between two characters, or with the text. -/
  boundary : IsBoundary text (byteLength (leading text).text)

/-- The leading piece is found by a rule of the same kind. -/
theorem exists_rule_leads (text : List Char) : ∃ rule ∈ rules,
    rule.kind? = (leading text).kind? ∧ rule.leads text = some (leading text) := by
  obtain ⟨rule,hrule,hleads⟩ := List.exists_of_findSome?_eq_some (matching?_eq_leading text)
  refine ⟨rule,hrule,?_,hleads⟩
  obtain ⟨part,_,hpart⟩ := Option.map_eq_some_iff.mp hleads
  rw [←hpart]

/-- A text with a first character goes on. -/
theorem goesOn_cons (c : Char) (text : List Char) : GoesOn (c::text) := by
  obtain ⟨rule,hrule,hkind,hleads⟩ := exists_rule_leads (c::text)
  have hfront := leading_prefix (c::text)
  constructor
  case ne_nil => exact List.cons_ne_nil c text
  case rule =>
    refine ⟨rule,hrule,?_,hleads⟩
    rw [hkind]
    exact fun hend => List.cons_ne_nil c text (leading_kind?_endOfInput hend)
  case pos => exact byteLength_pos (leading_cons_ne_nil c text)
  case le => exact byteLength_le_of_isPrefix hfront
  case boundary => exact isBoundary_of_isPrefix hfront

/-- A text is at its end or goes on, and never both. -/
theorem atEnd_xor_goesOn (text : List Char) :
    Xor (text = [] ∧ leading text = ⟨some .endOfInput,[]⟩) (GoesOn text) := by
  cases text with
  | nil => exact Or.inl ⟨⟨rfl,leading_nil⟩,fun h => h.ne_nil rfl⟩
  | cons c text => exact Or.inr ⟨goesOn_cons c text,fun h => List.cons_ne_nil c text h.1⟩

/-- Only the rules for blanks and for comments have no kind. -/
theorem piece?_of_kind?_eq_none {rule : Rule} (h : rule ∈ rules) (hkind : rule.kind? = none) :
    rule.piece? = run isBlank isBlank ∨ rule.piece? = comment := by
  simp only [rules,List.mem_cons,List.not_mem_nil,or_false] at h
  rcases h with rfl|rfl|rfl|rfl|rfl|rfl|rfl|rfl|rfl
  case inr.inl => exact Or.inl rfl
  case inr.inr.inl => exact Or.inr rfl
  all_goals cases hkind

/-- Behind all characters of a class no run of that class begins. -/
theorem run_dropWhile (p : Char → Bool) (text : List Char) : run p p (text.dropWhile p) = none := by
  cases hrest : text.dropWhile p with
  | nil => rfl
  | cons c rest =>
    have hc : p c = false := not_of_head?_dropWhile (List.head?_eq_some_iff.mpr ⟨rest,hrest⟩)
    rw [run,hc,if_neg Bool.false_ne_true]

/-- Behind a line no comment begins. -/
theorem comment_dropWhile (text : List Char) : comment (text.dropWhile isCommentChar) = none := by
  cases hrest : text.dropWhile isCommentChar with
  | nil => rfl
  | cons c rest =>
    have hc := not_of_head?_dropWhile (List.head?_eq_some_iff.mpr ⟨rest,hrest⟩)
    obtain rfl : c = '\n' := by simpa [isCommentChar] using hc
    rfl

end Lexicon

namespace Reader

/-- The place behind the piece at this place. -/
def advance (r : Reader) : Reader := r.pass r.piece.text

/-- The place in a text behind a number of pieces, the end being passed again and again. -/
def place (text : String) (n : Nat) : Reader := advance^[n] (ofText text)

/-- What is left at a place lies within a text, and the piece at the place within that. -/
structure IsWithin (r : Reader) (text : List Char) : Prop where
  /-- The place is a boundary of the text. -/
  boundary : IsBoundary text r.offset
  /-- The text from the place on is what is left. -/
  rest : Span.slice ⟨r.offset,byteLength text⟩ text = some r.rest
  /-- What is left begins with the piece. -/
  piece : Span.slice ⟨0,byteLength r.piece.text⟩ r.rest = some r.piece.text

/-- Behind some pieces without a kind comes one that is the next token, and reading leads
behind it. -/
structure Finds (r : Reader) (skipped : Nat) : Prop where
  /-- These pieces have no kind. -/
  skips : ∀ i < skipped, (advance^[i] r).piece.kind? = none
  /-- The piece behind them has one, and is read. -/
  next : ∃ kind, (advance^[skipped] r).piece.kind? = some kind ∧
    r.next = ((advance^[skipped] r).tokenAt kind (advance^[skipped] r).piece.text,
      advance^[skipped+1] r)

/-- A place behind a part in front of a text lies within the text. -/
theorem isWithin_of_split {r : Reader} {text front : List Char} (htext : text = front++r.rest)
    (hoffset : r.offset = byteLength front) : r.IsWithin text where
  boundary := ⟨front,r.rest,htext,hoffset.symm⟩
  rest := by
    have hlength : byteLength text = byteLength front+byteLength r.rest := by
      rw [htext,byteLength_append]
    have hslice := Span.slice_append front r.rest []
    rw [List.append_nil,←htext] at hslice
    rw [hoffset,hlength,hslice]
  piece := by
    obtain ⟨behind,hbehind⟩ := r.piece_prefix
    have hslice := Span.slice_append [] r.piece.text behind
    rwa [List.nil_append,hbehind,byteLength_nil,Nat.zero_add] at hslice

/-- One piece more is put behind the part that was passed. -/
theorem exists_split_advance {r : Reader} {text front : List Char} (htext : text = front++r.rest)
    (hoffset : r.offset = byteLength front) :
    ∃ front, text = front++r.advance.rest ∧ r.advance.offset = byteLength front := by
  obtain ⟨behind,hbehind⟩ := r.piece_prefix
  refine ⟨front++r.piece.text,?_,?_⟩
  · rw [advance,rest_pass hbehind.symm,List.append_assoc,hbehind,htext]
  · rw [byteLength_append,←hoffset]
    rfl

/-- Every place behind some pieces of a text is behind a part in front of it. -/
theorem exists_split_place (text : String) (n : Nat) :
    ∃ front, text.toList = front++(place text n).rest ∧
      (place text n).offset = byteLength front := by
  induction n with
  | zero => exact ⟨[],rfl,rfl⟩
  | succ n ih =>
    obtain ⟨front,htext,hoffset⟩ := ih
    rw [place,Function.iterate_succ_apply']
    exact exists_split_advance htext hoffset

/-- From every place the next token is found, behind no more pieces than there are
characters left. -/
theorem exists_finds (r : Reader) : ∃ skipped ≤ r.rest.length, r.Finds skipped := by
  fun_induction next r with
  | case1 r hkind _ ih =>
    obtain ⟨skipped,hle,hfinds⟩ := ih
    refine ⟨skipped+1,Nat.lt_of_le_of_lt hle (pass_skipped_length hkind),?_,?_⟩
    · -- the first of the pieces is that at this place, the others are those behind it
      rintro (_|i) hi
      · exact hkind
      · exact hfinds.skips i (Nat.lt_of_succ_lt_succ hi)
    · rw [next_of_skipped hkind]
      exact hfinds.next
  | case2 r kind hkind =>
    refine ⟨0,Nat.zero_le _,fun _ hi => absurd hi (Nat.not_lt_zero _),kind,hkind,?_⟩
    exact next_of_kind hkind

/-- All places between two tokens of a text are behind some of its pieces. -/
theorem exists_place_eq (text : String) (n : Nat) :
    ∃ m, (fun r => r.next.2)^[n] (ofText text) = place text m := by
  induction n with
  | zero => exact ⟨0,rfl⟩
  | succ n ih =>
    obtain ⟨m,hm⟩ := ih
    obtain ⟨skipped,_,_,_,_,hnext⟩ := exists_finds (place text m)
    have hbehind : (place text m).next.2 = advance^[skipped+1] (place text m) :=
      congrArg Prod.snd hnext
    refine ⟨skipped+1+m,?_⟩
    rw [Function.iterate_succ_apply',hm,hbehind]
    exact (Function.iterate_add_apply ..).symm

/-- Behind blanks comes what is left without its first blanks. -/
theorem exists_rest_advance_of_run {r : Reader}
    (h : (Lexicon.run Lexicon.isBlank Lexicon.isBlank r.rest).isSome) :
    ∃ text : List Char, r.advance.rest = text.dropWhile Lexicon.isBlank := by
  cases hrest : r.rest with
  | nil =>
    rw [hrest] at h
    cases h
  | cons c text =>
    have hc : Lexicon.isBlank c := by
      by_contra hc
      rw [hrest,Lexicon.run,if_neg hc] at h
      cases h
    refine ⟨text,?_⟩
    rw [advance,piece_of_blank hrest hc]
    refine rest_pass ?_
    rw [hrest,List.cons_append,List.takeWhile_append_dropWhile]

/-- Behind a comment comes what is left without the rest of its first line. -/
theorem exists_rest_advance_of_comment {r : Reader} (h : (Lexicon.comment r.rest).isSome) :
    ∃ text : List Char, r.advance.rest = text.dropWhile Lexicon.isCommentChar := by
  unfold Lexicon.comment at h
  split at h
  next text hrest =>
    refine ⟨text,?_⟩
    rw [advance,piece_of_comment hrest]
    refine rest_pass ?_
    rw [hrest,List.cons_append,List.cons_append,List.takeWhile_append_dropWhile]
  next => cases h

/-- A rule without a kind that has passed over its piece does not apply behind it. -/
theorem piece?_advance {r : Reader} {rule : Lexicon.Rule} (hrule : rule ∈ Lexicon.rules)
    (hkind : rule.kind? = none) (h : (rule.piece? r.rest).isSome) :
    rule.piece? r.advance.rest = none := by
  rcases Lexicon.piece?_of_kind?_eq_none hrule hkind with hpiece|hpiece <;> rw [hpiece] at h ⊢
  · obtain ⟨text,hbehind⟩ := exists_rest_advance_of_run h
    rw [hbehind,Lexicon.run_dropWhile]
  · obtain ⟨text,hbehind⟩ := exists_rest_advance_of_comment h
    rw [hbehind,Lexicon.comment_dropWhile]

/-- Every token takes at least one of the characters that are left. -/
theorem length_tokens_le (r : Reader) : r.tokens.length ≤ r.rest.length := by
  induction r using tokens_induction with
  | endOfInput r hr => exact Nat.zero_le _
  | token r hr ih => exact Nat.lt_of_le_of_lt ih (next_length hr)

end Reader

/-- The end is what all readings behind the last token give, and none before. -/
theorem kind_reading_eq_endOfInput_iff (text : String) (n : Nat) :
    (reading text n).kind = .endOfInput ↔ (tokens text).length ≤ n := by
  have hplace := (Reader.standsAt_ofText text).iterate n
  rw [reading,hplace.kind_eq_endOfInput_iff]
  have hindex : ((Cursor.ofText text).forward n).index = min (0+n) (tokens text).length := rfl
  have hlength : ((Cursor.ofText text).forward n).tokens.length = (tokens text).length := rfl
  rw [hindex,hlength]
  omega

/-- Asking for one token after the other, unless it is the end, gives the tokens of a text
in their order, and none behind the last of them. -/
theorem next?_iterate (text : String) (n : Nat) :
    ((fun r => r.next?.2)^[n] (Reader.ofText text)).next?.1 = (tokens text)[n]? := by
  have hnext? : ((fun r => r.next?.2)^[n] (Reader.ofText text)).next?.1 =
      if (reading text n).kind = .endOfInput then none else some (reading text n) := rfl
  rw [hnext?]
  by_cases hn : (tokens text).length ≤ n
  · rw [if_pos ((kind_reading_eq_endOfInput_iff text n).mpr hn),List.getElem?_eq_none hn]
  · have hlt := Nat.lt_of_not_le hn
    have hreading := getElem?_allTokens_min text n
    rw [Nat.min_eq_left (Nat.le_of_lt hlt),allTokens,List.getElem?_append_left hlt] at hreading
    rw [if_neg fun hend => hn ((kind_reading_eq_endOfInput_iff text n).mp hend),hreading]

/-- All tokens of a text are its readings up to the first that is the end. -/
theorem allTokens_eq_map_reading (text : String) :
    allTokens text = (List.range ((tokens text).length+1)).map (reading text) := by
  have hlength : (allTokens text).length = (tokens text).length+1 := List.length_append
  rw [allTokens_eq_map_skip,hlength]
  refine List.map_congr_left fun n _ => ?_
  rw [Reader.skip_eq_iterate,reading]

/-- Some rule finds a piece in every text: the end where there is nothing left, and
otherwise a piece of another rule that takes some bytes of the text and ends at a boundary.
All places that a reader of a text comes to, piece by piece, lie within the text, those
between two tokens among them, and from each of them the next token is found behind no more
pieces than there are characters left, no two of which in a row are blanks or comments. So
there are no more tokens than characters. One reading after the other gives the tokens and
then none, and the first reading of the end, with which a dump stops, comes right behind
the last token. -/
theorem reading_comes_to_end (text : String) :
    (∀ rest, Lexicon.matching? rest = some (Lexicon.leading rest) ∧
      Xor (rest = [] ∧ Lexicon.leading rest = ⟨some .endOfInput,[]⟩) (Lexicon.GoesOn rest)) ∧
    (∀ n, ∃ m, (fun r => r.next.2)^[n] (Reader.ofText text) = Reader.place text m) ∧
    (∀ n, (Reader.place text n).IsWithin text.toList ∧
      (∃ skipped ≤ (Reader.place text n).rest.length, (Reader.place text n).Finds skipped) ∧
      ∀ rule ∈ Lexicon.rules, rule.kind? = none →
        (rule.piece? (Reader.place text n).rest).isSome →
        rule.piece? (Reader.place text (n+1)).rest = none) ∧
    (tokens text).length ≤ text.length ∧
    (∀ n, ((fun r => r.next?.2)^[n] (Reader.ofText text)).next?.1 = (tokens text)[n]?) ∧
    (∀ n, (reading text n).kind = .endOfInput ↔ (tokens text).length ≤ n) ∧
    Program.dump text = CommandLine.ofLines
      ((List.range ((tokens text).length+1)).map fun n => (reading text n).render) := by
  refine ⟨fun rest => ⟨Lexicon.matching?_eq_leading rest,Lexicon.atEnd_xor_goesOn rest⟩,
    Reader.exists_place_eq text,fun n => ⟨?_,Reader.exists_finds _,?_⟩,?_,next?_iterate text,
    kind_reading_eq_endOfInput_iff text,?_⟩
  · obtain ⟨front,htext,hoffset⟩ := Reader.exists_split_place text n
    exact Reader.isWithin_of_split htext hoffset
  · intro rule hrule hkind happlies
    rw [Reader.place,Function.iterate_succ_apply']
    exact Reader.piece?_advance hrule hkind happlies
  · rw [←String.length_toList]
    exact Reader.length_tokens_le _
  · rw [Program.dump,allTokens_eq_map_reading,List.map_map]
    rfl

/-- Behind the name comes a comment, then a newline, which is no comment, then another
comment up to the end. -/
theorem reading_comes_to_end_twoComments :
    (Lexicon.comment (Reader.place "a//b\n//é" 1).rest).isSome ∧
    Lexicon.comment (Reader.place "a//b\n//é" 2).rest = none ∧
    (∃ skipped ≤ 7, (Reader.place "a//b\n//é" 1).Finds skipped) ∧
    (tokens "a//b\n//é").length ≤ 8 := by
  have hcomment : (Lexicon.comment (Reader.place "a//b\n//é" 1).rest).isSome := by
    decide +kernel
  have hrest : (Reader.place "a//b\n//é" 1).rest.length = 7 := by decide +kernel
  obtain ⟨_,_,hplaces,hlength,_⟩ := reading_comes_to_end "a//b\n//é"
  obtain ⟨_,hfinds,hrules⟩ := hplaces 1
  rw [hrest] at hfinds
  exact ⟨hcomment,hrules ⟨none,Lexicon.comment⟩ (.tail _ (.tail _ (.head _))) rfl hcomment,
    hfinds,hlength⟩

end GrammarCensus
