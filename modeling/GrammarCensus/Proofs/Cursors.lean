import GrammarCensus.Proofs.Layout
import GrammarCensus.Proofs.Reading
import GrammarCensus.Token.Lookahead

/-!
# Readers as cursors

A reader gives tokens one by one, with the end or without it, or all that are left at
once, and a lookahead shows the next one before it is taken. None of this changes which
tokens there are. The main statement is that in any order of steps a reader answers as
a cursor that moves along the list of the tokens and stays behind the last of them, and
that a lookahead shows the token at the cursor, however often it is looked at.
-/

namespace GrammarCensus

section Answers

variable {σ τ Step Answer : Type}

/-- The answers to some steps, each given in the state to which the steps before it lead. -/
def answersOf (answer : σ → Step → Answer×σ) : σ → List Step → List Answer
  | _,[] => []
  | s,step::steps => (answer s step).1::answersOf answer (answer s step).2 steps

/-- Every step has one answer. -/
@[simp] theorem length_answersOf (answer : σ → Step → Answer×σ) (s : σ) (steps : List Step) :
    (answersOf answer s steps).length = steps.length := by
  induction steps generalizing s with
  | nil => rfl
  | cons step steps ih => rw [answersOf,List.length_cons,ih,List.length_cons]

/-- States give the same answers to all steps, if they are related in a way that gives the
same answer to one step and that one step preserves. -/
theorem answersOf_congr {answer : σ → Step → Answer×σ} {answer' : τ → Step → Answer×τ}
    {related : σ → τ → Prop}
    (hstep : ∀ {s t}, related s t → ∀ step, (answer s step).1 = (answer' t step).1 ∧
      related (answer s step).2 (answer' t step).2) {s : σ} {t : τ} (h : related s t)
    (steps : List Step) : answersOf answer s steps = answersOf answer' t steps := by
  induction steps generalizing s t with
  | nil => rfl
  | cons step steps ih =>
    obtain ⟨hanswer,hbehind⟩ := hstep h step
    rw [answersOf,answersOf,hanswer,ih hbehind]

end Answers

/-- What a reader can be asked for. -/
inductive Reader.Step
  /-- The next token, which may be the end. -/
  | next
  /-- The next token, unless it is the end. -/
  | next?
  /-- The lexemes of all tokens that are left. -/
  | rest
deriving Repr, DecidableEq

/-- What a reader answers. -/
inductive Reader.Answer
  /-- A token. -/
  | token (token : Token)
  /-- A token, or none at the end. -/
  | token? (token? : Option Token)
  /-- Some lexemes. -/
  | lexemes (lexemes : List String)
deriving Repr, DecidableEq

/-- What can be done with a lookahead. -/
inductive Lookahead.Step
  /-- The next token is looked at. -/
  | peek
  /-- The next token is taken. -/
  | next
deriving Repr, DecidableEq

/-- What is left is the next token and what is left behind it, or nothing where the end comes
next. -/
theorem Reader.drain_eq (r : Reader) : r.drain = match r.next? with
    | (none,behind) => ([],behind)
    | (some t,behind) => (t::behind.drain.1,behind.drain.2) := by
  by_cases hend : r.next.1.kind = .endOfInput
  · have hnone : r.next? = (none,r.atEnd) := by
      rw [next?,next_of_endOfInput hend]
      rfl
    rw [hnone,drain,tokens_of_endOfInput hend]
  · have hsome : r.next? = (some r.next.1,r.next.2) := by
      rw [next?]
      exact congrArg (·,r.next.2) (if_neg hend)
    rw [hsome,drain,tokens_of_ne_endOfInput hend,←atEnd_next]
    rfl

/-- The answer of a reader to a step, and where the step leads. -/
def Reader.answer (r : Reader) : Reader.Step → Reader.Answer×Reader
  | .next => (.token r.next.1,r.next.2)
  | .next? => (.token? r.next?.1,r.next?.2)
  | .rest => (.lexemes (r.drain.1.map (·.lexeme)),r.drain.2)

/-- The answer of a lookahead to a step, and where the step leads. -/
def Lookahead.answer (l : Lookahead) : Lookahead.Step → Token×Lookahead
  | .peek => (l.peek,l)
  | .next => l.next

/-- A place in a list of tokens, or behind the last of them. -/
structure Cursor where
  /-- The tokens. -/
  tokens : List Token
  /-- The end, which comes behind the last token. -/
  last : Token
  /-- The number of tokens before the place. -/
  index : Nat
  /-- There is no place beyond the one behind the last token. -/
  index_le : index ≤ tokens.length

namespace Cursor

/-- The beginning of a text. -/
def ofText (text : String) : Cursor :=
  ⟨GrammarCensus.tokens text,endToken text,0,Nat.zero_le _⟩

/-- The token at the place. -/
def current (c : Cursor) : Token := c.tokens.getD c.index c.last

/-- The place some tokens further on, or behind the last token if there are fewer of them. -/
def forward (c : Cursor) (n : Nat) : Cursor :=
  ⟨c.tokens,c.last,min (c.index+n) c.tokens.length,Nat.min_le_right ..⟩

/-- The place behind the last token. -/
def toEnd (c : Cursor) : Cursor := ⟨c.tokens,c.last,c.tokens.length,Nat.le_refl _⟩

/-- What a cursor answers to the steps of a reader. -/
def answer (c : Cursor) : Reader.Step → Reader.Answer×Cursor
  | .next => (.token c.current,c.forward 1)
  | .next? => (.token? (if c.index = c.tokens.length then none else some c.current),c.forward 1)
  | .rest => (.lexemes ((c.tokens.drop c.index).map (·.lexeme)),c.toEnd)

/-- What a cursor answers to the steps of a lookahead. -/
def ahead (c : Cursor) : Lookahead.Step → Token×Cursor
  | .peek => (c.current,c)
  | .next => (c.current,c.forward 1)

variable {c : Cursor}

/-- Behind the last token the end is the token at the place. -/
theorem current_of_index_eq (h : c.index = c.tokens.length) : c.current = c.last := by
  have hnone : c.tokens[c.index]? = none := List.getElem?_eq_none (Nat.le_of_eq h.symm)
  rw [current,List.getD_eq_getElem?_getD,hnone,Option.getD_none]

/-- Elsewhere the token at the place is one of the tokens. -/
theorem current_of_index_lt (h : c.index < c.tokens.length) : c.current = c.tokens[c.index] := by
  rw [current,List.getD_eq_getElem?_getD,List.getElem?_eq_getElem h,Option.getD_some]

/-- The token at the place is the one with its number among all tokens with the end. -/
theorem getElem?_index (c : Cursor) : (c.tokens++[c.last])[c.index]? = some c.current := by
  rcases Nat.lt_or_eq_of_le c.index_le with hlt|heq
  · rw [List.getElem?_append_left hlt,current_of_index_lt hlt,List.getElem?_eq_getElem hlt]
  · rw [current_of_index_eq heq,heq,List.getElem?_concat_length]

/-- Behind the last token a cursor stays there. -/
theorem forward_of_index_eq (h : c.index = c.tokens.length) (n : Nat) : c.forward n = c.toEnd := by
  rw [forward,toEnd,mk.injEq]
  exact ⟨rfl,rfl,Nat.min_eq_right (by omega)⟩

/-- Going no token further on stays in place. -/
theorem forward_zero (c : Cursor) : c.forward 0 = c := by
  obtain ⟨tokens,last,index,hle⟩ := c
  rw [forward,mk.injEq]
  exact ⟨rfl,rfl,Nat.min_eq_left hle⟩

/-- Going further on twice is going on by as many tokens together. -/
theorem forward_forward (c : Cursor) (m n : Nat) :
    (c.forward m).forward n = c.forward (m+n) := by
  simp only [forward,mk.injEq,true_and]
  omega

/-- Among all tokens of a text the one with some number is as many places from the
beginning. -/
theorem getElem?_allTokens (text : String) (n : Nat) :
    (allTokens text)[min n (GrammarCensus.tokens text).length]? =
      some ((ofText text).forward n).current := by
  have hindex : ((ofText text).forward n).index = min n (GrammarCensus.tokens text).length :=
    congrArg (min · _) (Nat.zero_add n)
  have htoken := getElem?_index ((ofText text).forward n)
  rw [hindex] at htoken
  exact htoken

/-- A lookahead at a cursor gives the token that lies as many places further on as tokens
were taken before. -/
theorem getElem?_answersOf_ahead (c : Cursor) {steps : List Lookahead.Step} {k : Nat}
    (hk : k < steps.length) :
    (answersOf ahead c steps)[k]? = some (c.forward ((steps.take k).count .next)).current := by
  induction steps generalizing c k with
  | nil => cases hk
  | cons step steps ih =>
    have hanswer : (ahead c step).1 = c.current := by cases step <;> rfl
    cases k with
    | zero =>
      rw [answersOf,hanswer,List.take_zero,List.count_nil,forward_zero]
      rfl
    | succ k =>
      rw [answersOf,List.getElem?_cons_succ,ih _ (Nat.lt_of_succ_lt_succ hk),List.take_succ_cons]
      cases step with
      | peek => rfl
      | next => rw [ahead,forward_forward,List.count_cons_self,Nat.add_comm]

end Cursor

namespace Reader

/-- A reader stands at the place of a cursor: the tokens that it has left are those from
this place on, and the end is the same. -/
structure StandsAt (r : Reader) (c : Cursor) : Prop where
  /-- The tokens from the place on are left. -/
  tokens : r.tokens = c.tokens.drop c.index
  /-- The end is that behind the tokens. -/
  last : r.endToken = c.last

/-- At the beginning of a text no token has been read. -/
theorem standsAt_ofText (text : String) : (ofText text).StandsAt (.ofText text) :=
  ⟨rfl,rfl⟩

namespace StandsAt

variable {r : Reader} {c : Cursor}

/-- The end comes next where the cursor is behind the last token. -/
theorem kind_eq_endOfInput_iff (h : r.StandsAt c) :
    r.next.1.kind = .endOfInput ↔ c.index = c.tokens.length := by
  constructor
  · intro hend
    have hnone := h.tokens
    rw [tokens_of_endOfInput hend] at hnone
    exact Nat.le_antisymm c.index_le (List.drop_eq_nil_iff.mp hnone.symm)
  · intro heq
    by_contra hne
    have hsome := h.tokens
    rw [heq,List.drop_length,tokens_of_ne_endOfInput hne] at hsome
    cases hsome

/-- At the end of the text a reader stands behind the last token. -/
theorem atEnd (h : r.StandsAt c) : r.atEnd.StandsAt c.toEnd where
  tokens := by rw [tokens_of_rest_eq_nil rfl,Cursor.toEnd,List.drop_length]
  last := h.last

/-- The next token is that of the cursor, and behind it the reader stands at the next place
of the cursor. -/
theorem next (h : r.StandsAt c) :
    r.next.1 = c.current ∧ r.next.2.StandsAt (c.forward 1) := by
  by_cases hend : r.next.1.kind = .endOfInput
  · have heq := h.kind_eq_endOfInput_iff.mp hend
    rw [next_of_endOfInput hend,Cursor.current_of_index_eq heq,Cursor.forward_of_index_eq heq]
    exact ⟨h.last,h.atEnd⟩
  · have hlt : c.index < c.tokens.length :=
      Nat.lt_of_le_of_ne c.index_le fun heq => hend (h.kind_eq_endOfInput_iff.mpr heq)
    have htokens := h.tokens
    rw [tokens_of_ne_endOfInput hend,List.drop_eq_getElem_cons hlt] at htokens
    obtain ⟨hnext,hbehind⟩ := List.cons.inj htokens
    have hindex : (c.forward 1).index = c.index+1 := Nat.min_eq_left hlt
    refine ⟨?_,?_,(endToken_next r).trans h.last⟩
    · rw [hnext,Cursor.current_of_index_lt hlt]
    · rw [hbehind,hindex]
      rfl

/-- A reader and a cursor at its place answer a step alike, and then stand at one place. -/
theorem answer (h : r.StandsAt c) (step : Step) : (r.answer step).1 = (c.answer step).1 ∧
    (r.answer step).2.StandsAt (c.answer step).2 := by
  obtain ⟨hnext,hbehind⟩ := h.next
  cases step with
  | next => exact ⟨congrArg Answer.token hnext,hbehind⟩
  | next? =>
    have hnext? : r.next?.1 = if c.index = c.tokens.length then none else some c.current := by
      rw [←hnext]
      exact if_congr h.kind_eq_endOfInput_iff rfl rfl
    exact ⟨congrArg Answer.token? hnext?,hbehind⟩
  | rest =>
    have hlexemes : r.tokens.map (·.lexeme) = (c.tokens.drop c.index).map (·.lexeme) := by
      rw [h.tokens]
    exact ⟨congrArg Answer.lexemes hlexemes,h.atEnd⟩

/-- After a number of readings a reader stands as many places further on. -/
theorem iterate (h : r.StandsAt c) (n : Nat) :
    ((fun r => r.next.2)^[n] r).StandsAt (c.forward n) := by
  induction n with
  | zero =>
    rw [Cursor.forward_zero]
    exact h
  | succ n ih =>
    rw [Function.iterate_succ_apply',←Cursor.forward_forward]
    exact ih.next.2

end StandsAt

end Reader

namespace Lookahead

/-- A lookahead stands at the place of a cursor if it was made from a reader there. -/
def StandsAt (l : Lookahead) (c : Cursor) : Prop :=
  ∃ r : Reader, r.StandsAt c ∧ l = ofReader r

/-- A lookahead and a cursor at its place answer a step alike, and then stand at one place. -/
theorem StandsAt.answer {l : Lookahead} {c : Cursor} (h : l.StandsAt c) (step : Step) :
    (l.answer step).1 = (c.ahead step).1 ∧ (l.answer step).2.StandsAt (c.ahead step).2 := by
  obtain ⟨r,hr,rfl⟩ := h
  obtain ⟨hnext,hbehind⟩ := hr.next
  cases step with
  | peek => exact ⟨hnext,r,hr,rfl⟩
  | next =>
    refine ⟨hnext,?_⟩
    by_cases hend : (ofReader r).pending.kind = .endOfInput
    · -- the pending end stays, and reading it once more would have given it again
      have hagain : ofReader r.next.2 = ofReader r := by
        rw [ofReader,ofReader,Reader.next_of_endOfInput hend]
        dsimp only
        rw [Reader.next_atEnd]
      exact ⟨_,hbehind,(next_snd_of_endOfInput hend).trans hagain.symm⟩
    · exact ⟨_,hbehind,next_snd_of_ne_endOfInput hend⟩

/-- Looking at the next token changes no other answer. -/
theorem answersOf_peek (l : Lookahead) (before behind : List Step) :
    (answersOf answer l (before++.peek::behind)).eraseIdx before.length =
      answersOf answer l (before++behind) := by
  induction before generalizing l with
  | nil => rfl
  | cons step before ih => exact congrArg (_::·) (ih _)

/-- The lookahead made from a reader that was asked for some tokens of a text before. -/
def after (text : String) (n : Nat) : Lookahead :=
  ofReader ((fun r => r.next.2)^[n] (Reader.ofText text))

/-- It gives the tokens from the place on that the readings have reached. -/
theorem getElem?_answersOf_after (text : String) (n : Nat) {steps : List Step} {k : Nat}
    (hk : k < steps.length) : (answersOf answer (after text n) steps)[k]? =
      (allTokens text)[min (n+(steps.take k).count .next) (tokens text).length]? := by
  have hplace : (after text n).StandsAt ((Cursor.ofText text).forward n) :=
    ⟨_,(Reader.standsAt_ofText text).iterate n,rfl⟩
  rw [answersOf_congr StandsAt.answer hplace,Cursor.getElem?_answersOf_ahead _ hk,
    Cursor.forward_forward,Cursor.getElem?_allTokens]

end Lookahead

/-- Whatever is asked of a reader of a text in whatever order, it answers as a cursor does
in the list of the tokens. A lookahead that is made after some readings, also behind the
end, gives at each step the token in the place that the readings and the steps before have
reached, the end at most, and looking at it changes no other answer. -/
theorem answersOf_eq_cursor (text : String) :
    (∀ steps, answersOf Reader.answer (Reader.ofText text) steps =
      answersOf Cursor.answer (Cursor.ofText text) steps) ∧
    ∀ n steps, (answersOf Lookahead.answer (Lookahead.after text n) steps).length = steps.length ∧
      (∀ k < steps.length, (answersOf Lookahead.answer (Lookahead.after text n) steps)[k]? =
        (allTokens text)[min (n+(steps.take k).count .next) (tokens text).length]?) ∧
      ∀ before behind, steps = before++.peek::behind →
        (answersOf Lookahead.answer (Lookahead.after text n) steps).eraseIdx before.length =
          answersOf Lookahead.answer (Lookahead.after text n) (before++behind) := by
  refine ⟨answersOf_congr Reader.StandsAt.answer (Reader.standsAt_ofText text),fun n steps =>
    ⟨length_answersOf ..,fun k hk => Lookahead.getElem?_answersOf_after text n hk,?_⟩⟩
  rintro before behind rfl
  exact Lookahead.answersOf_peek ..

/-- Behind the lexemes of the tokens that were left there is none, and then the end. -/
example : answersOf Reader.answer (Reader.ofText "a : B") [.next?,.rest,.next?,.next] =
    [.token? (some ⟨.nonTerminal,"a",⟨0,1⟩,⟨1,1⟩⟩),.lexemes [":","B"],.token? none,
      .token ⟨.endOfInput,"<EOF>",⟨5,5⟩,⟨1,6⟩⟩] := by decide +kernel

end GrammarCensus
