import GrammarCensus.Program
import GrammarCensus.Proofs.FirstError

/-!
# The trace of a recognition

Recognition reports each token that comes next, when it begins and whenever it
has taken a token. The main statement is that these reports are the tokens of
the text in their order, each one once: all of them with the end where the text
is accepted, and otherwise those up to the token at which the error is. So they
agree with the tokens that the program prints.
-/

namespace GrammarCensus

open Progress

/-- The tokens that some events report as coming next. -/
def Log.lookaheads (events : List Log.Event) : List Token :=
  events.filterMap fun
    | .lookahead t => some t
    | _ => none

/-- What events report one after the other they report together. -/
theorem Log.lookaheads_append (first second : List Log.Event) :
    Log.lookaheads (first++second) = Log.lookaheads first++Log.lookaheads second :=
  List.filterMap_append

/-- Reports of tokens report these tokens. -/
theorem Log.lookaheads_map (tokens : List Token) :
    Log.lookaheads (tokens.map .lookahead) = tokens := by
  rw [Log.lookaheads,List.filterMap_map]
  exact List.filterMap_some

/-- The tokens that the recognition of a text reports. -/
def trace (text : String) : List Token :=
  Log.lookaheads (Recognition.ofText text).events

namespace Recognition

/-- Recognition reports the tokens that it examines, and none behind them. -/
theorem lookaheads_events (r : Recognition) : Log.lookaheads r.events = r.examined := by
  rw [events,Log.lookaheads_append,Log.lookaheads_map]
  cases r.outcome with
  | error e => exact List.append_nil _
  | ok s => exact List.append_nil _

/-- Tokens that are followed are examined, and then those that are examined from where
they lead. -/
theorem examined_follow_append {p middle : Progress} {first : List Token}
    (h : p.run first = .ok middle) (second : List Token) (last : Token) :
    (follow p (first++second) last).examined = first++(follow middle second last).examined := by
  induction first generalizing p with
  | nil =>
    obtain rfl := Except.ok.inj h
    rfl
  | cons t first ih =>
    cases hs : p.step t with
    | error e =>
      rw [run_cons_of_error hs] at h
      cases h
    | ok p' =>
      rw [run_cons_of_ok hs] at h
      have hrest := ih h
      rw [List.cons_append,follow,hs]
      exact congrArg (t::·) hrest

/-- A token at which an error arises is the last one that is examined. -/
theorem examined_follow_of_error {p : Progress} {t : Token} {e : SyntaxError}
    (h : p.step t = .error e) (tokens : List Token) (last : Token) :
    (follow p (t::tokens) last).examined = [t] := by
  rw [follow,h]

end Recognition

/-- The position of an error is that of the token at which it arises. -/
theorem Progress.position_of_step_error {p : Progress} {t : Token} {e : SyntaxError}
    (h : p.step t = .error e) : e.position = t.position := by
  rcases step_error h with ⟨_,rfl⟩|⟨_,_,_,_,rfl⟩ <;> rfl

/-- The reported tokens are the examined ones. -/
theorem trace_eq_examined (text : String) :
    trace text = (Recognition.follow (begin (firstToken text)) (tokens text)
      (endToken text)).examined := by
  rw [trace,Recognition.lookaheads_events,Recognition.ofText_eq_ofTokens]
  rfl

/-- Where all tokens are followed, all tokens and the end are reported. -/
theorem trace_of_run {text : String} {p : Progress}
    (h : (begin (firstToken text)).run (tokens text) = .ok p) : trace text = allTokens text := by
  have hall := Recognition.examined_follow_append h [] (endToken text)
  rw [List.append_nil] at hall
  rw [trace_eq_examined,hall]
  rfl

/-- Where an error arises at a token, that token is the last one reported. -/
theorem trace_of_split {text : String} {e : SyntaxError} {front back : List Token} {t : Token}
    {p : Progress} (hsplit : allTokens text = front++t::back)
    (hrun : (begin (firstToken text)).run front = .ok p) (hstep : p.step t = .error e) :
    trace text = front++[t] := by
  rcases allTokens_eq_append hsplit with ⟨others,ht⟩|⟨rfl,rfl⟩
  · rw [trace_eq_examined,ht,Recognition.examined_follow_append hrun,
      Recognition.examined_follow_of_error hstep]
  · exact trace_of_run hrun

/-- The reports of an accepted text are all its tokens with the end, which are the lines
that the program prints. Those of any other text are the tokens up to the only one at
the position of the error, and the printed lines go on behind them. -/
theorem trace_eq_take (path text : String) :
    (∀ s, survey text = .ok s → trace text = allTokens text ∧
      (Program.tokensOutput path (.ok text)).stdout =
        CommandLine.ofLines ((trace text).map Token.render)) ∧
    ∀ e, survey text = .error e → ∃ k t, (allTokens text)[k]? = some t ∧
      (∀ i u, (allTokens text)[i]? = some u → (u.position = e.position ↔ i = k)) ∧
      trace text = (allTokens text).take (k+1) ∧
      (Program.tokensOutput path (.ok text)).stdout =
        CommandLine.ofLines ((trace text).map Token.render++
          ((allTokens text).drop (k+1)).map Token.render) := by
  have hprinted : (Program.tokensOutput path (.ok text)).stdout =
      CommandLine.ofLines ((allTokens text).map Token.render) := rfl
  refine ⟨fun s h => ?_,fun e h => ?_⟩
  · obtain ⟨p,hrun,_,_⟩ := run_of_survey h
    have htrace := trace_of_run hrun
    exact ⟨htrace,by rw [hprinted,htrace]⟩
  · obtain ⟨front,t,back,p,hsplit,hrun,hstep,_⟩ := exists_split_of_survey_error h
    have hplace : (allTokens text)[front.length]? = some t :=
      getElem?_eq_some_iff_split.mpr ⟨front,back,hsplit,rfl⟩
    have hposition := position_of_step_error hstep
    have htrace : trace text = (allTokens text).take (front.length+1) := by
      rw [trace_of_split hsplit hrun hstep,hsplit,List.take_length_add_append]
      rfl
    refine ⟨front.length,t,hplace,fun i u hu => ⟨fun hsame => ?_,?_⟩,htrace,?_⟩
    · exact eq_of_position_eq hu hplace (hsame.trans hposition)
    · rintro rfl
      rw [hplace] at hu
      rw [hposition,Option.some.inj hu]
    · rw [hprinted,htrace,←List.map_append,List.take_append_drop]

/-- Of a second definition and a missing colon behind it, the head of the definition is the
last token reported, though the lines of two more are printed. Without it all tokens are
reported, and nothing else is printed. -/
theorem trace_eq_take_redefined :
    (trace "s : A ;" = allTokens "s : A ;" ∧
      (Program.tokensOutput "g" (.ok "s : A ;")).stdout =
        CommandLine.ofLines ((trace "s : A ;").map Token.render)) ∧
    trace "s : A ;\ns ;" = (allTokens "s : A ;\ns ;").take 5 ∧
    (Program.tokensOutput "g" (.ok "s : A ;\ns ;")).stdout =
      CommandLine.ofLines ((trace "s : A ;\ns ;").map Token.render++
        ["2:3 Semicolon ';'","2:4 EndOfInput '<EOF>'"]) := by
  obtain ⟨s,hs⟩ := (exists_survey_iff "s : A ;").mpr ⟨by decide +kernel,by decide +kernel⟩
  have herror : survey "s : A ;\ns ;" = .error (.redefined "s" ⟨2,1⟩ ⟨1,1⟩) := by
    decide +kernel
  obtain ⟨k,_,_,hposition,htrace,hprinted⟩ := (trace_eq_take "g" "s : A ;\ns ;").2 _ herror
  have hplace : (allTokens "s : A ;\ns ;")[4]? = some ⟨.nonTerminal,"s",⟨8,9⟩,⟨2,1⟩⟩ := by
    decide +kernel
  obtain rfl := (hposition _ _ hplace).mp rfl
  have hbehind : ((allTokens "s : A ;\ns ;").drop (4+1)).map Token.render =
      ["2:3 Semicolon ';'","2:4 EndOfInput '<EOF>'"] := by decide +kernel
  rw [hbehind] at hprinted
  exact ⟨(trace_eq_take "g" "s : A ;").1 s hs,htrace,hprinted⟩

end GrammarCensus
