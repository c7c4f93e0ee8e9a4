import GrammarCensus.Proofs.Following
import GrammarCensus.Proofs.Reading

/-!
# The recognizer and the automaton

A recognizer takes one token after the other from a lookahead, in one part of the syntax
inside another. What it will have done in the end is what the automaton does with the tokens
that are left, from the state that belongs to the part. No step changes this. The main
statement is that a recognizer and the automaton look at the same tokens of a text and have
the same outcome.
-/

namespace GrammarCensus

namespace Lookahead

/-- The tokens that can be taken before the end is pending. -/
def tokens (l : Lookahead) : List Token :=
  if l.pending.kind = .endOfInput then [] else l.pending::l.reader.tokens

/-- The end, which is pending behind these tokens. -/
def last (l : Lookahead) : Token :=
  if l.pending.kind = .endOfInput then l.pending else l.reader.endToken

/-- A lookahead gives the tokens that are left to its reader. -/
theorem tokens_ofReader (r : Reader) : (ofReader r).tokens = r.tokens := by
  by_cases h : r.next.1.kind = .endOfInput
  · rw [Reader.tokens_of_endOfInput h]
    exact if_pos h
  · rw [Reader.tokens_of_ne_endOfInput h]
    exact if_neg h

/-- Behind them is the end of the text. -/
theorem last_ofReader (r : Reader) : (ofReader r).last = r.endToken := by
  by_cases h : r.next.1.kind = .endOfInput
  · have hend : (ofReader r).last = r.next.1 := if_pos h
    rw [hend,Reader.next_of_endOfInput h]
  · have hend : (ofReader r).last = r.next.2.endToken := if_neg h
    rw [hend,Reader.endToken_next]

variable {l : Lookahead}

/-- Where the end is pending no tokens are left. -/
theorem tokens_of_endOfInput (h : l.pending.kind = .endOfInput) : l.tokens = [] :=
  if_pos h

/-- Elsewhere they are the pending one and those behind it. -/
theorem tokens_of_ne_endOfInput (h : l.pending.kind ≠ .endOfInput) :
    l.tokens = l.peek::l.next.2.tokens := by
  rw [next_snd_of_ne_endOfInput h,tokens_ofReader]
  exact if_neg h

/-- Taking a token does not change the end. -/
theorem last_next (h : l.pending.kind ≠ .endOfInput) : l.next.2.last = l.last := by
  rw [next_snd_of_ne_endOfInput h,last_ofReader]
  exact (if_neg h).symm

/-- The pending token is the first one, or the end where there is none. -/
theorem peek_eq_headD (l : Lookahead) : l.peek = l.tokens.headD l.last := by
  by_cases h : l.pending.kind = .endOfInput
  · rw [tokens_of_endOfInput h]
    exact (if_pos h).symm
  · rw [tokens_of_ne_endOfInput h]
    rfl

end Lookahead

namespace Recognizer

/-- What a recognizer will have done in the end, if the automaton goes on from a state with the
tokens that are left. The token that comes next has been reported already. -/
def LeadsTo (r : Recognizer) (expecting : Expecting) (whole : Recognition) : Prop :=
  ∃ earlier, r.reported = r.tokens.peek::earlier ∧
    let rest := Recognition.follow ⟨expecting,r.survey⟩ r.tokens.tokens r.tokens.last
    whole = ⟨earlier.reverse++rest.examined,rest.outcome⟩

/-- What has been done behind a part of the recognition, or where it has failed. -/
def Outcome.LeadsTo (o : Outcome) (expecting : Expecting) (whole : Recognition) : Prop :=
  match o with
  | (.error e,r) => whole = ⟨r.reported.reverse,.error e⟩
  | (.ok (),r) => r.LeadsTo expecting whole

variable {r : Recognizer} {expecting next : Expecting} {whole : Recognition}

/-- Behind an alternative no symbol comes next. -/
theorem kind_alternative (r : Recognizer) :
    r.alternative.kind ≠ .terminal ∧ r.alternative.kind ≠ .nonTerminal := by
  fun_induction alternative r with
  | case1 r hk hlt ih => exact ih
  | case2 r hk hlt ih => exact ih
  | case3 r hterminal hnonTerminal => exact ⟨hterminal,hnonTerminal⟩

/-- A part leads on where the one before it does. -/
theorem Outcome.LeadsTo.andThen {o : Outcome} {part : Recognizer → Outcome}
    (h : o.LeadsTo expecting whole)
    (hpart : ∀ r : Recognizer, r.LeadsTo expecting whole → (part r).LeadsTo next whole) :
    (o.andThen part).LeadsTo next whole := by
  rcases o with ⟨_|_,r⟩
  · exact h
  · exact hpart r h

namespace LeadsTo

/-- A token that the automaton takes is taken. -/
theorem advance (h : r.LeadsTo expecting whole) (hk : r.kind ≠ .endOfInput) {survey : Survey}
    (hstep : Progress.step ⟨expecting,r.survey⟩ r.tokens.peek = .ok ⟨next,survey⟩) :
    (r.withSurvey survey).advance.LeadsTo next whole := by
  obtain ⟨earlier,hreported,rfl⟩ := h
  have hbehind : (r.withSurvey survey).advance.reported =
      r.tokens.next.2.peek::r.tokens.peek::earlier := by
    rw [←hreported]
    exact if_neg hk
  refine ⟨_,hbehind,?_⟩
  rw [Lookahead.tokens_of_ne_endOfInput hk,Recognition.follow,hstep,←Lookahead.last_next hk]
  simp [Recognizer.advance,withSurvey]

/-- A token that the automaton refuses ends the recognition. -/
theorem refused (h : r.LeadsTo expecting whole) (hk : r.kind ≠ .endOfInput) {e : SyntaxError}
    (hstep : Progress.step ⟨expecting,r.survey⟩ r.tokens.peek = .error e) :
    whole = ⟨r.reported.reverse,.error e⟩ := by
  obtain ⟨earlier,hreported,rfl⟩ := h
  rw [Lookahead.tokens_of_ne_endOfInput hk,Recognition.follow,hstep,hreported]
  simp

/-- The end of the text ends the recognition. -/
theorem finish (h : r.LeadsTo expecting whole) (hk : r.kind = .endOfInput) :
    whole = ⟨r.reported.reverse,Progress.finish ⟨expecting,r.survey⟩ r.tokens.peek⟩ := by
  obtain ⟨earlier,hreported,rfl⟩ := h
  have hlast : r.tokens.last = r.tokens.peek := if_pos hk
  rw [Lookahead.tokens_of_endOfInput hk,Recognition.follow,hlast,hreported]
  simp

/-- A token that has no place, the end of the text included, is the error. -/
theorem unexpected (h : r.LeadsTo expecting whole) (hnext : expecting.next? r.kind = none)
    (hend : r.kind = .endOfInput → expecting ≠ .head) :
    whole = ⟨r.reported.reverse,.error r.syntaxError⟩ := by
  by_cases hk : r.kind = .endOfInput
  · rw [h.finish hk,Progress.finish,if_neg (hend hk)]
    rfl
  · exact h.refused hk (Progress.step_of_next?_none hnext)

/-- The symbols of an alternative are taken. -/
theorem alternative (h : r.LeadsTo .symbol whole) : r.alternative.LeadsTo .symbol whole := by
  fun_induction Recognizer.alternative r with
  | case1 r hk hlt ih =>
    have hkind : r.tokens.peek.kind = .terminal := hk
    refine ih (h.advance (by simp [hk]) ?_)
    simp only [Progress.step,hkind]
  | case2 r hk hlt ih =>
    have hkind : r.tokens.peek.kind = .nonTerminal := hk
    refine ih (h.advance (by simp [hk]) ?_)
    simp only [Progress.step,hkind]
    rfl
  | case3 r => exact h

/-- The alternatives are taken up to the semicolon, or end where neither that nor a pipe
comes. -/
theorem alternatives (h : r.LeadsTo .symbol whole) (hterminal : r.kind ≠ .terminal)
    (hnonTerminal : r.kind ≠ .nonTerminal) : r.alternatives.LeadsTo .head whole := by
  fun_induction Recognizer.alternatives r with
  | case1 r hk =>
    have hkind : r.tokens.peek.kind = .semicolon := hk
    refine h.advance (by simp [hk]) ?_
    simp only [Progress.step,hkind]
  | case2 r hk hlt ih =>
    have hkind : r.tokens.peek.kind = .pipe := hk
    have hadvance : r.advance.LeadsTo .symbol whole := by
      refine h.advance (by simp [hk]) ?_
      simp only [Progress.step,hkind]
    exact ih hadvance.alternative (kind_alternative r.advance).1 (kind_alternative r.advance).2
  | case3 r hsemicolon hpipe =>
    have hnext : Expecting.symbol.next? r.kind = none := by
      cases hk : r.kind with
      | semicolon => exact absurd hk hsemicolon
      | pipe => exact absurd hk hpipe
      | terminal => exact absurd hk hterminal
      | nonTerminal => exact absurd hk hnonTerminal
      | endOfInput | colon | error => rfl
    exact h.unexpected hnext fun _ => by decide

/-- The colon is taken, or anything else is the error. -/
theorem colon (h : r.LeadsTo .colon whole) : (r.expect .colon).LeadsTo .symbol whole := by
  rw [expect]
  split
  · next hk =>
    have hkind : r.tokens.peek.kind = .colon := hk
    refine h.advance (by simp [hk]) ?_
    simp only [Progress.step,hkind]
  · next hk =>
    have hnext : Expecting.colon.next? r.kind = none := by
      cases hkind : r.kind with
      | colon => exact absurd hkind hk
      | _ => rfl
    exact h.unexpected hnext fun _ => by decide

/-- A rule-set is taken, or ends at the token that does not fit or that defines a name again. -/
theorem ruleSet (h : r.LeadsTo .head whole) (hend : r.kind ≠ .endOfInput) :
    r.ruleSet.LeadsTo .head whole := by
  rw [Recognizer.ruleSet]
  split
  · next hk =>
    have hnext : Expecting.head.next? r.kind = none := by
      cases hkind : r.kind with
      | nonTerminal => exact absurd hkind hk
      | _ => rfl
    exact h.unexpected hnext fun hkind => absurd hkind hend
  next hk =>
  have hkind : r.tokens.peek.kind = .nonTerminal := Decidable.not_not.mp hk
  split
  · next first hdefine =>
    refine h.refused hend ?_
    simp only [Progress.step,hkind,hdefine]
  · next registry hdefine =>
    -- the automaton counts a head when it takes it, the recognizer right behind it
    have hcounted : (r.withSurvey ⟨registry,r.survey.nonTerminals+1,
        r.survey.terminals⟩).advance.LeadsTo .colon whole := by
      refine h.advance hend ?_
      simp only [Progress.step,hkind,hdefine]
    have hhead : (r.withSurvey ⟨registry,r.survey.nonTerminals,
        r.survey.terminals⟩).advance.countNonTerminal.LeadsTo .colon whole := hcounted
    have hexpect (survey : Survey) : (r.withSurvey survey).expect .nonTerminal =
        (.ok (),(r.withSurvey survey).advance) := if_pos hkind
    dsimp only
    rw [hexpect]
    exact hhead.colon.andThen fun r hr =>
      hr.alternative.alternatives (kind_alternative r).1 (kind_alternative r).2

/-- A recognizer does what the automaton does. -/
theorem grammar (h : r.LeadsTo .head whole) : Recognition.ofOutcome r.grammar = whole := by
  fun_induction Recognizer.grammar r with
  | case1 r hk =>
    have hexpect : r.expect .endOfInput = (.ok (),r.advance) := if_pos hk
    have hreported : r.advance.reported = r.reported := if_pos hk
    rw [hexpect,h.finish hk,Recognition.ofOutcome,hreported]
    rfl
  | case2 r hk e r' hruleSet =>
    have hfails := h.ruleSet hk
    rw [hruleSet] at hfails
    exact hfails.symm
  | case3 r hk r' hruleSet hlt ih =>
    have hleads := h.ruleSet hk
    rw [hruleSet] at hleads
    exact ih hleads

end LeadsTo

end Recognizer

/-- The recognition of a text is that of its tokens, one after the other. -/
theorem Recognition.ofText_eq_ofTokens (text : String) :
    Recognition.ofText text = .ofTokens (tokens text) (endToken text) := by
  have hleads : (Recognizer.ofText text).LeadsTo .head
      (.ofTokens (tokens text) (endToken text)) := by
    refine ⟨[],rfl,?_⟩
    have hfirst := Lookahead.peek_eq_headD (.ofReader (.ofText text))
    rw [Recognizer.ofText,hfirst]
    dsimp only
    rw [Lookahead.tokens_ofReader,Lookahead.last_ofReader]
    rfl
  exact hleads.grammar

end GrammarCensus
