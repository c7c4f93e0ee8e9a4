import GrammarCensus.Proofs.Descent

/-!
# The accepted texts

Recognition of a text is a run over its tokens that has to end where a head is
awaited. The main statement is that the texts that are accepted are exactly
those whose kinds are derivable from the productions, with different names at
the heads of all rule-sets of the derivation.
-/

namespace GrammarCensus

open Progress

/-- The token with which a text begins, which is its end where there is no other. -/
def firstToken (text : String) : Token :=
  (tokens text).headD (endToken text)

/-- The first of all tokens is the one with which the text begins. -/
theorem getElem?_zero_allTokens (text : String) :
    (allTokens text)[0]? = some (firstToken text) := by
  rw [allTokens,firstToken]
  cases tokens text <;> rfl

/-- The end of a text is a token of the kind of the end. -/
@[simp] theorem endToken_kind (text : String) : (endToken text).kind = .endOfInput := rfl

/-- The kinds of all tokens are those of the tokens and the end. -/
theorem kinds_allTokens (text : String) :
    (allTokens text).map (·.kind) = (tokens text).map (·.kind)++[.endOfInput] := by
  rw [allTokens,List.map_append]
  rfl

/-- The heads among all tokens are those among the tokens without the end. -/
theorem heads_allTokens (text : String) : heads (allTokens text) = heads (tokens text) :=
  heads_append_end _ (endToken_kind text)

/-- A survey is a run over the tokens and then a look at what is awaited. -/
theorem survey_eq_run (text : String) :
    survey text = ((begin (firstToken text)).run (tokens text) >>=
      fun p => p.finish (endToken text)) := by
  rw [survey,Recognition.ofText_eq_ofTokens]
  exact Recognition.outcome_follow ..

/-- At the beginning a head is awaited. -/
theorem begin_behind (first : Token) : (begin first).Behind .semicolon := by
  simp [Behind,begin]

/-- A run that stops where a head is awaited is a survey. -/
theorem survey_of_run {text : String} {p : Progress}
    (h : (begin (firstToken text)).run (tokens text) = .ok p) (he : p.expecting = .head) :
    survey text = .ok p.survey := by
  rw [survey_eq_run,h]
  exact if_pos he

/-- Elsewhere the end of the text is the error. -/
theorem survey_of_run_unfinished {text : String} {p : Progress}
    (h : (begin (firstToken text)).run (tokens text) = .ok p) (he : p.expecting ≠ .head) :
    survey text = .error (.unexpected (endToken text).position (endToken text).lexeme) := by
  rw [survey_eq_run,h]
  exact if_neg he

/-- The error of a run is that of the survey. -/
theorem survey_of_run_error {text : String} {e : SyntaxError}
    (h : (begin (firstToken text)).run (tokens text) = .error e) : survey text = .error e := by
  rw [survey_eq_run,h]
  rfl

/-- A survey comes from a run that stops where a head is awaited. -/
theorem run_of_survey {text : String} {s : Survey} (h : survey text = .ok s) :
    ∃ p, (begin (firstToken text)).run (tokens text) = .ok p ∧ p.expecting = .head ∧
      p.survey = s := by
  cases hr : (begin (firstToken text)).run (tokens text) with
  | error e =>
    rw [survey_of_run_error hr] at h
    cases h
  | ok p =>
    by_cases he : p.expecting = .head
    · rw [survey_of_run hr he] at h
      exact ⟨p,rfl,he,Except.ok.inj h⟩
    · rw [survey_of_run_unfinished hr he] at h
      cases h

/-- A run from the beginning goes through exactly when the kinds lead somewhere and
the heads have different names. -/
theorem exists_run_begin_iff (first : Token) (tokens : List Token) :
    (∃ p, (begin first).run tokens = .ok p) ↔
      (∃ e, Expecting.after? .head (tokens.map (·.kind)) = some e) ∧
      ((heads tokens).map (·.lexeme)).Nodup := by
  have hnames : ((begin first).survey.registry.definitions++(headsBehind .semicolon
      tokens).map Token.definition).map (·.name) = (heads tokens).map (·.lexeme) :=
    List.map_map
  have hrun := run_isOk_iff (begin_behind first) tokens
  rwa [hnames] at hrun

/-- Tokens whose kinds lead to a state and whose heads have different names are
followed from the beginning to that state. -/
theorem exists_run_begin {tokens : List Token} {e : Expecting}
    (he : Expecting.after? .head (tokens.map (·.kind)) = some e)
    (hn : ((heads tokens).map (·.lexeme)).Nodup) (first : Token) :
    ∃ p, (begin first).run tokens = .ok p ∧ p.expecting = e := by
  obtain ⟨p,hp⟩ := (exists_run_begin_iff first tokens).mpr ⟨⟨e,he⟩,hn⟩
  have hr := (reads_of_run (begin_behind first) hp).expecting
  exact ⟨p,hp,Option.some.inj (hr.symm.trans he)⟩

/-- A survey exists exactly where the kinds lead back to a head and the heads
have different names. -/
theorem exists_survey_iff (text : String) :
    (∃ s, survey text = .ok s) ↔
      Expecting.after? .head ((tokens text).map (·.kind)) = some .head ∧
      ((heads (tokens text)).map (·.lexeme)).Nodup := by
  constructor
  · rintro ⟨s,h⟩
    obtain ⟨p,hp,he,_⟩ := run_of_survey h
    have hk := (reads_of_run (begin_behind _) hp).expecting
    rw [he] at hk
    exact ⟨hk,((exists_run_begin_iff _ _).mp ⟨p,hp⟩).2⟩
  · rintro ⟨hk,hn⟩
    obtain ⟨p,hp,he⟩ := exists_run_begin hk hn (firstToken text)
    exact ⟨_,survey_of_run hp he⟩

/-- A text is accepted exactly when the kinds of its tokens, the end of the text
being the last, are derivable, and the tokens with which the rule-sets of the
derivation begin have different lexemes. -/
theorem survey_isOk_iff_derivable (text : String) :
    (∃ s, survey text = .ok s) ↔
      ∃ starts, IsGrammar ((allTokens text).map (·.kind)) starts ∧
        ((starts.filterMap fun i => (allTokens text)[i]?).map (·.lexeme)).Nodup := by
  rw [exists_survey_iff,←heads_allTokens]
  constructor
  · rintro ⟨hk,hn⟩
    obtain ⟨starts,hg⟩ := derivable_append_end.mpr hk
    rw [←kinds_allTokens] at hg
    refine ⟨starts,hg,?_⟩
    rwa [←heads_of_isGrammar hg rfl]
  · rintro ⟨starts,hg,hn⟩
    rw [←heads_of_isGrammar hg rfl] at hn
    rw [kinds_allTokens] at hg
    exact ⟨derivable_append_end.mp ⟨starts,hg⟩,hn⟩

end GrammarCensus
