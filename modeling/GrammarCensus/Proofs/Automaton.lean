import GrammarCensus.Recognition

/-!
# Recognition token by token

All that has to be remembered of the tokens so far is which of three things may
come next. So recognition can be seen as one pass over the tokens with a small
state, which stops at the first token that does not fit, or that defines a name
again, and keeps the tokens that it examined up to and with that one. The main
statement gives the outcome as a fold over the tokens.
-/

namespace GrammarCensus

/-- What the syntax allows next. -/
inductive Expecting
  /-- The head of a rule-set, or the end of the text. -/
  | head
  /-- The colon behind the head of a rule-set. -/
  | colon
  /-- A symbol of an alternative, or the sign that ends the alternative. -/
  | symbol
deriving Repr, DecidableEq, Inhabited

/-- The findings so far, and what may come next. -/
structure Progress where
  /-- What the syntax allows next. -/
  expecting : Expecting
  /-- The findings on the tokens so far. -/
  survey : Survey
deriving DecidableEq, Inhabited

namespace Progress

/-- Before the first token. The start symbol is the first head, and nothing has
to refer to it, so the first lexeme counts as used from the outset. -/
def begin (first : Token) : Progress :=
  ⟨.head,⟨Registry.empty.noteUse first.lexeme,0,0⟩⟩

/-- A token that is not the end of the text. The definition of a head is noted
before the colon behind it is seen. -/
def step (p : Progress) (t : Token) : Except SyntaxError Progress :=
  match p.expecting,t.kind with
  | .head,.nonTerminal =>
    match p.survey.registry.define t.lexeme t.position with
    | .error first => .error (.redefined t.lexeme t.position first)
    | .ok registry =>
      .ok ⟨.colon,⟨registry,p.survey.nonTerminals+1,p.survey.terminals⟩⟩
  | .colon,.colon => .ok ⟨.symbol,p.survey⟩
  | .symbol,.terminal =>
    .ok ⟨.symbol,⟨p.survey.registry,p.survey.nonTerminals,p.survey.terminals+1⟩⟩
  | .symbol,.nonTerminal =>
    .ok ⟨.symbol,⟨p.survey.registry.noteUse t.lexeme,p.survey.nonTerminals+1,
      p.survey.terminals⟩⟩
  | .symbol,.pipe => .ok p
  | .symbol,.semicolon => .ok ⟨.head,p.survey⟩
  | _,_ => .error (.unexpected t.position t.lexeme)

/-- The end of the text, which may come only between two rule-sets. -/
def finish (p : Progress) (last : Token) : Except SyntaxError Survey :=
  if p.expecting = .head then .ok p.survey
  else .error (.unexpected last.position last.lexeme)

end Progress

namespace Recognition

/-- Follows the tokens from a given state up to the end of the text. -/
def follow (p : Progress) : List Token → Token → Recognition
  | [],last => ⟨[last],p.finish last⟩
  | t::tokens,last =>
    match p.step t with
    | .error e => ⟨[t],.error e⟩
    | .ok p' =>
      let r := follow p' tokens last
      ⟨t::r.examined,r.outcome⟩

/-- The outcome is that of the tokens one after the other and then of the end. -/
theorem outcome_follow (p : Progress) (tokens : List Token) (last : Token) :
    (follow p tokens last).outcome =
      (tokens.foldlM Progress.step p >>= fun p' => p'.finish last) := by
  induction tokens generalizing p with
  | nil => rfl
  | cons t tokens ih =>
    rw [follow,List.foldlM_cons]
    cases p.step t with
    | error e => rfl
    | ok p' => exact ih p'

/-- The examined tokens are the first ones of all tokens. -/
theorem examined_follow_prefix (p : Progress) (tokens : List Token) (last : Token) :
    (follow p tokens last).examined <+: tokens++[last] := by
  induction tokens generalizing p with
  | nil => exact List.prefix_refl _
  | cons t tokens ih =>
    rw [follow]
    cases p.step t with
    | error e => exact List.cons_prefix_cons.mpr ⟨rfl,List.nil_prefix⟩
    | ok p' => exact List.cons_prefix_cons.mpr ⟨rfl,ih p'⟩

/-- Follows tokens from the beginning of a text. -/
def ofTokens (tokens : List Token) (last : Token) : Recognition :=
  follow (.begin (tokens.headD last)) tokens last

end Recognition

end GrammarCensus
