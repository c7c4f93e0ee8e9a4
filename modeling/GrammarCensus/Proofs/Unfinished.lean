import GrammarCensus.Proofs.FirstError
import GrammarCensus.Proofs.LineEnds

/-!
# Unfinished texts

An error at the end of a text says that the tokens so far are in order and that
something is missing. The main statement is that just these texts, of those that
are not accepted, can be made acceptable by going on behind a newline. An error
at any other token stays, whatever is appended, since the token is read again
before anything that was appended.
-/

namespace GrammarCensus

open Lexicon Progress

/-- The end of the text is written like no lexeme of a token. -/
theorem not_inClass_endLexeme (kind : Token.Kind) :
    ¬InClass kind Token.endLexeme.toList := by
  have hchars : Token.endLexeme.toList = ['<','E','O','F','>'] := rfl
  rw [hchars]
  cases kind with
  | nonTerminal => exact (by decide : ¬IsName isLower ['<','E','O','F','>'])
  | terminal => exact (by decide : ¬IsName isUpper ['<','E','O','F','>'])
  | _ => simp [InClass]

/-- Among tokens without non-terminals there are no heads. -/
theorem headsBehind_of_forall_ne {previous : Token.Kind} {tokens : List Token}
    (h : ∀ t ∈ tokens, t.kind ≠ .nonTerminal) : headsBehind previous tokens = [] := by
  refine List.eq_nil_iff_forall_not_mem.mpr fun t ht => ?_
  obtain ⟨front,back,rfl,hk,_⟩ := mem_headsBehind.mp ht
  exact h t (List.mem_append_right front List.mem_cons_self) hk

/-- Signs that lead from a state to the head of the next rule-set. -/
def Expecting.completion : Expecting → List Word
  | .head => []
  | .colon => [⟨.colon,":"⟩,⟨.semicolon,";"⟩]
  | .symbol => [⟨.semicolon,";"⟩]

/-- The signs lead there. -/
theorem Expecting.after?_completion (e : Expecting) :
    e.after? (e.completion.map (·.kind)) = some .head := by
  cases e <;> rfl

/-- None of the signs is a non-terminal. -/
theorem Expecting.kind_ne_of_mem_completion (e : Expecting) :
    ∀ w ∈ e.completion, w.kind ≠ .nonTerminal := by
  cases e <;> simp [completion]

/-- The signs behind each other, as a text. -/
def Expecting.completionText (e : Expecting) : String :=
  String.ofList (written (e.completion.map fun w => ⟨[],w⟩) [])

/-- A reader finds the signs where their text stands. -/
theorem words_completion {e : Expecting} {r : Reader} (hr : r.rest = e.completionText.toList) :
    r.tokens.map Token.word = e.completion := by
  rw [Expecting.completionText,String.toList_ofList] at hr
  have hlegible : Legible [] (e.completion.map fun w => ⟨[],w⟩) := by
    cases e <;> simp [Expecting.completion,Legible,Continues,InClass,Layout.nothing,written,
      FinalLayout.closed]
  have hwords := Reader.words_placedTokens
    (fun p hp => ne_endOfInput_of_inClass (hlegible.inClass hp)) r
  rw [Reader.tokens_of_legible hr hlegible,hwords,List.map_map]
  exact List.map_id _

/-- The tokens of a text are in order as far as they go, and leave something open. -/
structure Unfinished (text : String) : Prop where
  /-- The kinds lead to a place where no head is awaited. -/
  expecting : ∃ e, e ≠ .head ∧ Expecting.after? .head ((tokens text).map (·.kind)) = some e
  /-- The heads have different names. -/
  nodup : ((heads (tokens text)).map (·.lexeme)).Nodup

/-- The error of an unfinished text is at its end. -/
theorem Unfinished.survey_eq {text : String} (h : Unfinished text) :
    survey text = .error (.unexpected (endToken text).position Token.endLexeme) := by
  obtain ⟨⟨e,hne,he⟩,hnodup⟩ := h
  obtain ⟨p,hrun,rfl⟩ := exists_run_begin he hnodup (firstToken text)
  exact survey_of_run_unfinished hrun hne

/-- A text with an error at its end is unfinished. -/
theorem unfinished_of_survey {text : String} {position : Position}
    (h : survey text = .error (.unexpected position Token.endLexeme)) : Unfinished text := by
  obtain ⟨front,t,back,p,hsplit,hrun,hstep,hend⟩ := exists_split_of_survey_error h
  rcases step_error hstep with ⟨_,he⟩|⟨_,_,_,_,he⟩
  · obtain ⟨_,hlexeme⟩ := SyntaxError.unexpected.inj he
    rcases allTokens_eq_append hsplit with ⟨others,ht⟩|⟨rfl,rfl⟩
    · have hmem : t ∈ tokens text := by
        rw [ht]
        exact List.mem_append_right _ List.mem_cons_self
      have hclass := inClass_of_mem_tokens hmem
      rw [←hlexeme] at hclass
      exact absurd hclass (not_inClass_endLexeme _)
    · have hkinds := (reads_of_run (begin_behind _) hrun).expecting
      exact ⟨⟨p.expecting,hend rfl,hkinds⟩,((exists_run_begin_iff _ _).mp ⟨p,hrun⟩).2⟩
  · cases he

/-- An unfinished text is accepted with the missing signs on a line of their own. -/
theorem Unfinished.exists_survey {text : String} (h : Unfinished text) :
    ∃ more s, survey (text++"\n"++more) = .ok s := by
  obtain ⟨⟨e,_,he⟩,hnodup⟩ := h
  refine ⟨e.completionText,(exists_survey_iff _).mpr ?_⟩
  rw [tokens_append_newline]
  generalize hr : Reader.mk _ _ _ = r
  have hwords := words_completion (e := e) (r := r) (by rw [←hr])
  have hkinds : e.after? (r.tokens.map (·.kind)) = some .head := by
    rw [←kinds_words,hwords,e.after?_completion]
  have hheads : ∀ t ∈ r.tokens, t.kind ≠ .nonTerminal := by
    intro t ht
    have hmem : t.word ∈ e.completion := by
      rw [←hwords]
      exact List.mem_map_of_mem ht
    exact e.kind_ne_of_mem_completion _ hmem
  constructor
  · rw [List.map_append,Expecting.after?_append_of_some he,hkinds]
  · rw [heads,headsBehind_append,headsBehind_of_forall_ne hheads,List.append_nil]
    exact hnodup

/-- A text that is not accepted is unfinished, if going on behind a newline can make it
acceptable. -/
theorem unfinished_of_append {text more : String} {e : SyntaxError} {s : Survey}
    (herror : survey text = .error e) (h : survey (text++"\n"++more) = .ok s) :
    Unfinished text := by
  obtain ⟨hkinds,hnodup⟩ := (exists_survey_iff _).mp ⟨s,h⟩
  rw [tokens_append_newline,List.map_append,Expecting.after?_append,
    Option.bind_eq_some_iff] at hkinds
  rw [tokens_append_newline,heads,headsBehind_append,List.map_append] at hnodup
  obtain ⟨middle,hmiddle,_⟩ := hkinds
  have hdiffer := (List.nodup_append.mp hnodup).1
  refine ⟨⟨middle,?_,hmiddle⟩,hdiffer⟩
  rintro rfl
  obtain ⟨s',hs'⟩ := (exists_survey_iff text).mpr ⟨hmiddle,hdiffer⟩
  rw [herror] at hs'
  cases hs'

/-- The end of a text lies where the number of its bytes leads. -/
theorem endToken_position (text : String) :
    (endToken text).position = Position.ofOffset text.toList (byteLength text.toList) := by
  have hend := Position.ofOffset_byteLength text.toList []
  rw [List.append_nil] at hend
  rw [hend]
  rfl

/-- The texts whose error is at their end are those that are not accepted as they are,
and are accepted with something more behind a newline. The reported position is that
of the offset behind the last byte. -/
theorem survey_unexpected_end_iff (text : String) :
    ((∃ position, survey text = .error (.unexpected position Token.endLexeme)) ↔
      (∃ e, survey text = .error e) ∧ ∃ more s, survey (text++"\n"++more) = .ok s) ∧
    ∀ position, survey text = .error (.unexpected position Token.endLexeme) →
      position = Position.ofOffset text.toList (byteLength text.toList) := by
  refine ⟨⟨?_,?_⟩,fun position h => ?_⟩
  · rintro ⟨position,h⟩
    exact ⟨⟨_,h⟩,(unfinished_of_survey h).exists_survey⟩
  · rintro ⟨⟨e,herror⟩,more,s,h⟩
    exact ⟨_,(unfinished_of_append herror h).survey_eq⟩
  · have hend := (unfinished_of_survey h).survey_eq
    rw [h] at hend
    rw [(SyntaxError.unexpected.inj (Except.error.inj hend)).1,endToken_position]

/-- A rule-set that a comment cuts off is missing a semicolon, behind the comment. -/
theorem survey_unexpected_end_comment :
    survey "s : A // ;" = .error (.unexpected ⟨1,11⟩ Token.endLexeme) ∧
    (∃ more s, survey ("s : A // ;"++"\n"++more) = .ok s) ∧
    (⟨1,11⟩ : Position) = Position.ofOffset "s : A // ;".toList 10 := by
  have herror : survey "s : A // ;" = .error (.unexpected ⟨1,11⟩ Token.endLexeme) := by
    decide +kernel
  have h := survey_unexpected_end_iff "s : A // ;"
  exact ⟨herror,(h.1.mp ⟨_,herror⟩).2,h.2 _ herror⟩

end GrammarCensus
