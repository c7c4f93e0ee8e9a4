import GrammarCensus.Survey
import GrammarCensus.Token.Lookahead

/-!
# Recognition

The syntax of specifications:

```text
grammar       : end of input | ruleSet grammar
ruleSet       : nonTerminal ':' alternative alternatives
alternatives  : ';' | '|' alternative alternatives
alternative   : terminal alternative | nonTerminal alternative | nothing
```

A recognizer has one step for each of these, which it picks by the kind of the
token that comes next. It reports every token that comes next, and stops at the
first one that does not fit, or that defines a name again. The main statements
say that every step leaves less of the text, or at least not more, so that a
recognizer comes to an end.
-/

namespace GrammarCensus

/-- Why a text is not a specification. -/
inductive SyntaxError
  /-- A token stands where the syntax has no place for it. -/
  | unexpected (position : Position) (lexeme : String)
  /-- A name at the head of a rule-set has a rule-set already. -/
  | redefined (name : String) (position first : Position)
deriving Repr, DecidableEq, Inhabited

namespace SyntaxError

/-- The diagnostic for a reader, which begins with the position. -/
def message : SyntaxError → String
  | .unexpected position lexeme =>
    position.render++": syntax error at '"++lexeme++"'"
  | .redefined name position first =>
    position.render++": multiple rule-sets for "++name++"; first defined at "++first.render

/-- The position that the diagnostic names first. -/
def position : SyntaxError → Position
  | .unexpected position _ => position
  | .redefined _ position _ => position

end SyntaxError

/-- A recognizer on its way through a text. -/
structure Recognizer where
  /-- The token that comes next, and what is behind it. -/
  tokens : Lookahead
  /-- The findings on the tokens so far. -/
  survey : Survey
  /-- The tokens that have been reported as coming next, the last one first. -/
  reported : List Token
deriving DecidableEq, Inhabited

namespace Recognizer

/-- A recognizer at the beginning of a text. The start symbol is the first head,
and nothing has to refer to it, so the first lexeme counts as used from the
outset. -/
def ofText (text : String) : Recognizer :=
  let tokens := Lookahead.ofReader (.ofText text)
  ⟨tokens,⟨Registry.empty.noteUse tokens.peek.lexeme,0,0⟩,[tokens.peek]⟩

/-- The kind of the token that comes next. -/
def kind (r : Recognizer) : Token.Kind :=
  r.tokens.peek.kind

/-- The error that the token that comes next is not expected. -/
def syntaxError (r : Recognizer) : SyntaxError :=
  .unexpected r.tokens.peek.position r.tokens.peek.lexeme

/-- Takes the token that comes next and reports the one behind it. Behind the end
of the text there is none to report. -/
def advance (r : Recognizer) : Recognizer :=
  let (token,tokens) := r.tokens.next
  ⟨tokens,r.survey,
    if token.kind = .endOfInput then r.reported else tokens.peek::r.reported⟩

/-- Less is left behind a token that is not the end. -/
theorem left_advance_lt {r : Recognizer} {kind : Token.Kind} (h : r.kind = kind)
    (hkind : kind ≠ .endOfInput) : r.advance.tokens.left < r.tokens.left :=
  Lookahead.left_next_lt fun hend => hkind (h.symm.trans hend)

/-- Taking a token never leaves more. -/
theorem left_advance_le (r : Recognizer) : r.advance.tokens.left ≤ r.tokens.left := by
  by_cases h : r.kind = .endOfInput
  · exact Nat.le_of_eq (congrArg Lookahead.left (Lookahead.next_snd_of_endOfInput h))
  · exact Nat.le_of_lt (left_advance_lt rfl h)

/-- The same place in the text, with other findings. -/
def withSurvey (r : Recognizer) (survey : Survey) : Recognizer :=
  ⟨r.tokens,survey,r.reported⟩

/-- One terminal more has occurred. -/
def countTerminal (r : Recognizer) : Recognizer :=
  r.withSurvey ⟨r.survey.registry,r.survey.nonTerminals,r.survey.terminals+1⟩

/-- One non-terminal more has occurred. -/
def countNonTerminal (r : Recognizer) : Recognizer :=
  r.withSurvey ⟨r.survey.registry,r.survey.nonTerminals+1,r.survey.terminals⟩

/-- The name that comes next is used. -/
def noteUse (r : Recognizer) : Recognizer :=
  r.withSurvey ⟨r.survey.registry.noteUse r.tokens.peek.lexeme,r.survey.nonTerminals,
    r.survey.terminals⟩

/-- An alternative: goes on behind the last of its symbols. What follows belongs to
the rule-set. -/
def alternative (r : Recognizer) : Recognizer :=
  match h : r.kind with
  | .terminal =>
    have : r.countTerminal.advance.tokens.left < r.tokens.left := left_advance_lt h (by decide)
    r.countTerminal.advance.alternative
  | .nonTerminal =>
    have : r.countNonTerminal.noteUse.advance.tokens.left < r.tokens.left :=
      left_advance_lt h (by decide)
    r.countNonTerminal.noteUse.advance.alternative
  | _ => r
termination_by r.tokens.left

/-- An alternative never leaves more. -/
theorem left_alternative_le (r : Recognizer) : r.alternative.tokens.left ≤ r.tokens.left := by
  fun_induction alternative r with
  | case1 r h hlt ih => exact Nat.le_trans ih (Nat.le_of_lt hlt)
  | case2 r h hlt ih => exact Nat.le_trans ih (Nat.le_of_lt hlt)
  | case3 r => exact Nat.le_refl _

/-- How a part of the recognition ends, and where. -/
abbrev Outcome := Except SyntaxError Unit × Recognizer

/-- Goes on where a part has ended without an error. -/
def Outcome.andThen (o : Outcome) (next : Recognizer → Outcome) : Outcome :=
  match o with
  | (.error e,r) => (.error e,r)
  | (.ok (),r) => next r

/-- Takes a token that has to be of some kind. -/
def expect (r : Recognizer) (kind : Token.Kind) : Outcome :=
  if r.kind = kind then (.ok (),r.advance) else (.error r.syntaxError,r)

/-- The alternatives behind the first one, up to the semicolon. -/
def alternatives (r : Recognizer) : Outcome :=
  match h : r.kind with
  | .semicolon => (.ok (),r.advance)
  | .pipe =>
    have : r.advance.alternative.tokens.left < r.tokens.left :=
      Nat.lt_of_le_of_lt (left_alternative_le r.advance) (left_advance_lt h (by decide))
    r.advance.alternative.alternatives
  | _ => (.error r.syntaxError,r)
termination_by r.tokens.left

/-- A rule-set. The definition of its head is noted before the colon behind it is
seen. -/
def ruleSet (r : Recognizer) : Outcome :=
  if r.kind ≠ .nonTerminal then (.error r.syntaxError,r)
  else
    match r.survey.registry.define r.tokens.peek.lexeme r.tokens.peek.position with
    | .error first => (.error (.redefined r.tokens.peek.lexeme r.tokens.peek.position first),r)
    | .ok registry =>
      let defined := r.withSurvey ⟨registry,r.survey.nonTerminals,r.survey.terminals⟩
      (defined.expect .nonTerminal).andThen fun r =>
        (r.countNonTerminal.expect .colon).andThen fun r => r.alternative.alternatives

/-- What goes on leaves no more than what went before, if it does not by itself. -/
theorem Outcome.left_andThen_le {o : Outcome} {next : Recognizer → Outcome}
    (h : ∀ r, (next r).2.tokens.left ≤ r.tokens.left) :
    (o.andThen next).2.tokens.left ≤ o.2.tokens.left := by
  rcases o with ⟨_|_,r⟩
  · exact Nat.le_refl _
  · exact h r

/-- Expecting a token never leaves more. -/
theorem left_expect_le (r : Recognizer) (kind : Token.Kind) :
    (r.expect kind).2.tokens.left ≤ r.tokens.left := by
  rw [expect]
  split
  · exact left_advance_le r
  · exact Nat.le_refl _

/-- Alternatives never leave more. -/
theorem left_alternatives_le (r : Recognizer) :
    r.alternatives.2.tokens.left ≤ r.tokens.left := by
  fun_induction alternatives r with
  | case1 r h => exact left_advance_le r
  | case2 r h hlt ih => exact Nat.le_trans ih (Nat.le_of_lt hlt)
  | case3 r => exact Nat.le_refl _

/-- Less is left behind a rule-set. -/
theorem left_ruleSet_lt {r : Recognizer} (h : r.ruleSet.1 = .ok ()) :
    r.ruleSet.2.tokens.left < r.tokens.left := by
  rw [ruleSet] at h ⊢
  split at h
  · cases h
  · next hkind =>
    have hhead : r.kind = .nonTerminal := Decidable.not_not.mp hkind
    rw [if_neg hkind]
    split at h
    · cases h
    · next registry _ =>
      have hexpect (survey : Survey) : (r.withSurvey survey).expect .nonTerminal =
          (.ok (),(r.withSurvey survey).advance) := if_pos hhead
      have hbody (r : Recognizer) : ((r.countNonTerminal.expect .colon).andThen fun r =>
          r.alternative.alternatives).2.tokens.left ≤ r.tokens.left := by
        refine Nat.le_trans (Outcome.left_andThen_le fun r => ?_) (left_expect_le _ _)
        exact Nat.le_trans (left_alternatives_le _) (left_alternative_le r)
      dsimp only
      rw [hexpect]
      exact Nat.lt_of_le_of_lt (Outcome.left_andThen_le hbody) (left_advance_lt hhead (by decide))

/-- All rule-sets up to the end of the text. -/
def grammar (r : Recognizer) : Outcome :=
  if r.kind = .endOfInput then r.expect .endOfInput
  else
    match h : r.ruleSet with
    | (.error e,r') => (.error e,r')
    | (.ok (),r') =>
      have : r'.tokens.left < r.tokens.left := by
        have hlt := left_ruleSet_lt (congrArg Prod.fst h)
        rwa [h] at hlt
      r'.grammar
termination_by r.tokens.left

end Recognizer

/-- What recognition did on a text. -/
structure Recognition where
  /-- The tokens that were looked at, in their order. -/
  examined : List Token
  /-- The findings, or the first error. -/
  outcome : Except SyntaxError Survey

namespace Recognition

/-- What is known when a recognizer has ended. -/
def ofOutcome : Recognizer.Outcome → Recognition
  | (.error e,r) => ⟨r.reported.reverse,.error e⟩
  | (.ok (),r) => ⟨r.reported.reverse,.ok r.survey⟩

/-- Recognizes a text. -/
def ofText (text : String) : Recognition :=
  ofOutcome (Recognizer.ofText text).grammar

end Recognition

/-- The findings on a text, or the first error in it. -/
def survey (text : String) : Except SyntaxError Survey :=
  (Recognition.ofText text).outcome

end GrammarCensus
