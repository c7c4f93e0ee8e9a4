import GrammarCensus.Proofs.Automaton

/-!
# Derivations in the syntax of specifications

The four productions of the syntax, read as derivations of lists of token kinds,
beside the three states in which recognition waits for a token. A list of kinds
is derivable exactly when it leads from the first state back to it and then
ends. Every state that is ever reached can be led to an end, so a list of kinds
is viable, the beginning of a derivable one, exactly when it leads anywhere.
-/

namespace GrammarCensus

/-- `alternative : terminal alternative | nonTerminal alternative | nothing`. -/
inductive IsAlternative : List Token.Kind → Prop
  /-- Nothing is an alternative. -/
  | nothing : IsAlternative []
  /-- A terminal, and then an alternative. -/
  | terminal {kinds} : IsAlternative kinds → IsAlternative (.terminal::kinds)
  /-- A non-terminal, and then an alternative. -/
  | nonTerminal {kinds} : IsAlternative kinds → IsAlternative (.nonTerminal::kinds)

/-- `alternatives : ';' | '|' alternative alternatives`. -/
inductive IsAlternatives : List Token.Kind → Prop
  /-- The semicolon ends the alternatives. -/
  | semicolon : IsAlternatives [.semicolon]
  /-- A pipe, one more alternative, and then alternatives. -/
  | pipe {kinds others} : IsAlternative kinds → IsAlternatives others →
      IsAlternatives (.pipe::(kinds++others))

/-- `ruleSet : nonTerminal ':' alternative alternatives`. -/
inductive IsRuleSet : List Token.Kind → Prop
  /-- The head, the colon, the first alternative and the others. -/
  | ruleSet {kinds others} : IsAlternative kinds → IsAlternatives others →
      IsRuleSet (.nonTerminal::.colon::(kinds++others))

/-- `grammar : end of input | ruleSet grammar`, together with the places at which
the rule-sets of the derivation begin. -/
inductive IsGrammar : List Token.Kind → List Nat → Prop
  /-- The end of the text alone has no rule-sets. -/
  | endOfInput : IsGrammar [.endOfInput] []
  /-- A rule-set begins at once, and those behind it begin that much later. -/
  | ruleSet {kinds others starts} : IsRuleSet kinds → IsGrammar others starts →
      IsGrammar (kinds++others) (0::starts.map (kinds.length+·))

/-- Some derivation ends in these kinds. -/
def Derivable (kinds : List Token.Kind) : Prop :=
  ∃ starts, IsGrammar kinds starts

/-- Some derivable list of kinds begins with these kinds. -/
def Viable (kinds : List Token.Kind) : Prop :=
  ∃ more, Derivable (kinds++more)

/-- The beginning of a viable list is viable. -/
theorem Viable.of_append {kinds more : List Token.Kind} (h : Viable (kinds++more)) :
    Viable kinds := by
  obtain ⟨others,h⟩ := h
  exact ⟨more++others,by rwa [←List.append_assoc]⟩

/-- An alternative has no semicolon. -/
theorem IsAlternative.not_mem {kinds : List Token.Kind} (h : IsAlternative kinds) :
    .semicolon ∉ kinds := by
  induction h with
  | nothing => exact List.not_mem_nil
  | terminal _ ih => simpa using ih
  | nonTerminal _ ih => simpa using ih

/-- The only semicolon of alternatives is the last of their kinds. -/
theorem IsAlternatives.eq_append {kinds : List Token.Kind} (h : IsAlternatives kinds) :
    ∃ body, kinds = body++[.semicolon] ∧ .semicolon ∉ body := by
  induction h with
  | semicolon => exact ⟨[],rfl,List.not_mem_nil⟩
  | @pipe kinds others ha _ ih =>
    obtain ⟨body,rfl,hb⟩ := ih
    refine ⟨.pipe::(kinds++body),by simp,?_⟩
    simp [ha.not_mem,hb]

/-- A rule-set begins with a non-terminal, and its only semicolon is the last of
its kinds. -/
theorem IsRuleSet.eq_cons {kinds : List Token.Kind} (h : IsRuleSet kinds) :
    ∃ body, kinds = .nonTerminal::(body++[.semicolon]) ∧ .semicolon ∉ body := by
  cases h with
  | @ruleSet kinds others ha ho =>
    obtain ⟨body,rfl,hb⟩ := ho.eq_append
    refine ⟨.colon::(kinds++body),by simp,?_⟩
    simp [ha.not_mem,hb]

namespace Expecting

/-- What may come behind a token of a kind, where the token itself may come. -/
def next? : Expecting → Token.Kind → Option Expecting
  | .head,.nonTerminal => some .colon
  | .colon,.colon => some .symbol
  | .symbol,.terminal => some .symbol
  | .symbol,.nonTerminal => some .symbol
  | .symbol,.pipe => some .symbol
  | .symbol,.semicolon => some .head
  | _,_ => none

/-- What may come behind tokens of some kinds, where all of them may come. -/
def after? (e : Expecting) (kinds : List Token.Kind) : Option Expecting :=
  kinds.foldlM next? e

/-- The first kind is followed, and then the others. -/
@[simp] theorem after?_cons (e : Expecting) (kind : Token.Kind) (kinds : List Token.Kind) :
    e.after? (kind::kinds) = (e.next? kind).bind (·.after? kinds) := rfl

/-- Kinds are followed in two parts as they are in one. -/
theorem after?_append (e : Expecting) (first second : List Token.Kind) :
    e.after? (first++second) = (e.after? first).bind (·.after? second) :=
  List.foldlM_append

/-- Kinds that lead to a state end where the kinds behind them lead from there. -/
theorem after?_append_of_some {e middle : Expecting} {first : List Token.Kind}
    (h : e.after? first = some middle) (second : List Token.Kind) :
    e.after? (first++second) = middle.after? second := by
  rw [after?_append,h,Option.bind_some]

/-- The end of the text leads nowhere. -/
@[simp] theorem next?_endOfInput (e : Expecting) : e.next? .endOfInput = none := by
  cases e <;> rfl

/-- A head is awaited behind a semicolon and nowhere else. -/
theorem next?_eq_head_iff {e next : Expecting} {kind : Token.Kind}
    (h : e.next? kind = some next) : next = .head ↔ kind = .semicolon := by
  cases e <;> cases kind <;> simp_all [next?,eq_comm]

/-- Where a head is awaited only a non-terminal may come. -/
theorem eq_nonTerminal_of_next?_head {kind : Token.Kind} {e : Expecting}
    (h : Expecting.next? .head kind = some e) : kind = .nonTerminal := by
  cases kind <;> simp_all [next?]

/-- No part of what leads somewhere is the end of the text. -/
theorem not_mem_of_after? {e next : Expecting} {kinds : List Token.Kind}
    (h : e.after? kinds = some next) : .endOfInput ∉ kinds := by
  induction kinds generalizing e with
  | nil => exact List.not_mem_nil
  | cons kind kinds ih =>
    rw [after?_cons,Option.bind_eq_some_iff] at h
    obtain ⟨middle,hm,h⟩ := h
    intro hmem
    rcases List.mem_cons.mp hmem with rfl|hmem
    · rw [next?_endOfInput] at hm
      cases hm
    · exact ih h hmem

/-- An alternative is read without leaving the alternatives. -/
theorem after?_of_isAlternative {kinds : List Token.Kind} (h : IsAlternative kinds) :
    after? .symbol kinds = some .symbol := by
  induction h with
  | nothing => rfl
  | terminal _ ih => exact ih
  | nonTerminal _ ih => exact ih

/-- All alternatives lead to the head of the next rule-set. -/
theorem after?_of_isAlternatives {kinds : List Token.Kind} (h : IsAlternatives kinds) :
    after? .symbol kinds = some .head := by
  induction h with
  | semicolon => rfl
  | @pipe kinds others ha _ ih =>
    have hp : after? .symbol (.pipe::(kinds++others)) = after? .symbol (kinds++others) := rfl
    rw [hp,after?_append_of_some (after?_of_isAlternative ha),ih]

/-- A rule-set leads from one head to the next. -/
theorem after?_of_isRuleSet {kinds : List Token.Kind} (h : IsRuleSet kinds) :
    after? .head kinds = some .head := by
  cases h with
  | @ruleSet kinds others ha ho =>
    have hc : after? .head (.nonTerminal::.colon::(kinds++others)) =
        after? .symbol (kinds++others) := rfl
    rw [hc,after?_append_of_some (after?_of_isAlternative ha),after?_of_isAlternatives ho]

/-- A derivable list is the end of the text behind what leads to a head. -/
theorem after?_of_isGrammar {kinds : List Token.Kind} {starts : List Nat}
    (h : IsGrammar kinds starts) :
    ∃ body, kinds = body++[.endOfInput] ∧ after? .head body = some .head := by
  induction h with
  | endOfInput => exact ⟨[],rfl,rfl⟩
  | @ruleSet kinds others starts hr _ ih =>
    obtain ⟨body,rfl,hb⟩ := ih
    refine ⟨kinds++body,(List.append_assoc ..).symm,?_⟩
    rw [after?_append_of_some (after?_of_isRuleSet hr),hb]

/-- The rest of a rule-set behind its colon, and then a grammar. -/
def CompletesRuleSet (kinds : List Token.Kind) : Prop :=
  ∃ alternative others rest, kinds = alternative++(others++rest) ∧
    IsAlternative alternative ∧ IsAlternatives others ∧ Derivable rest

/-- What completes a derivation from a state: a grammar, or what is left of a
rule-set and then a grammar. -/
def Completes : Expecting → List Token.Kind → Prop
  | .head,kinds => Derivable kinds
  | .colon,kinds => ∃ rest, kinds = .colon::rest ∧ CompletesRuleSet rest
  | .symbol,kinds => CompletesRuleSet kinds

/-- A kind that may come goes in front of what completes a derivation behind it. -/
theorem completes_cons {e next : Expecting} {kind : Token.Kind} {kinds : List Token.Kind}
    (h : e.next? kind = some next) (hk : next.Completes kinds) : e.Completes (kind::kinds) := by
  cases e with
  | head =>
    cases kind <;> simp only [next?,Option.some.injEq,reduceCtorEq] at h
    subst h
    obtain ⟨_,rfl,alternative,others,rest,rfl,ha,ho,starts,hr⟩ := hk
    have hg := IsGrammar.ruleSet (IsRuleSet.ruleSet ha ho) hr
    simp only [List.cons_append,List.append_assoc] at hg
    exact ⟨_,hg⟩
  | colon =>
    cases kind <;> simp only [next?,Option.some.injEq,reduceCtorEq] at h
    subst h
    exact ⟨kinds,rfl,hk⟩
  | symbol =>
    cases kind <;> simp only [next?,Option.some.injEq,reduceCtorEq] at h
    case pipe =>
      subst h
      obtain ⟨alternative,others,rest,rfl,ha,ho,hr⟩ := hk
      refine ⟨[],.pipe::(alternative++others),rest,?_,.nothing,.pipe ha ho,hr⟩
      simp only [List.nil_append,List.cons_append,List.append_assoc]
    case semicolon =>
      subst h
      exact ⟨[],[.semicolon],kinds,rfl,.nothing,.semicolon,hk⟩
    case nonTerminal =>
      subst h
      obtain ⟨alternative,others,rest,rfl,ha,ho⟩ := hk
      exact ⟨.nonTerminal::alternative,others,rest,rfl,.nonTerminal ha,ho⟩
    case terminal =>
      subst h
      obtain ⟨alternative,others,rest,rfl,ha,ho⟩ := hk
      exact ⟨.terminal::alternative,others,rest,rfl,.terminal ha,ho⟩

/-- What leads to a head completes a derivation with the end of the text. -/
theorem completes_of_after? {e : Expecting} {kinds : List Token.Kind}
    (h : e.after? kinds = some .head) : e.Completes (kinds++[.endOfInput]) := by
  induction kinds generalizing e with
  | nil =>
    obtain rfl : e = .head := Option.some.inj h
    exact ⟨[],.endOfInput⟩
  | cons kind kinds ih =>
    rw [after?_cons,Option.bind_eq_some_iff] at h
    obtain ⟨next,hn,h⟩ := h
    exact completes_cons hn (ih h)

/-- Whatever the state, some kinds lead from it to a head. -/
theorem exists_after?_eq_head (e : Expecting) : ∃ kinds, e.after? kinds = some .head := by
  cases e with
  | head => exact ⟨[],rfl⟩
  | colon => exact ⟨[.colon,.semicolon],rfl⟩
  | symbol => exact ⟨[.semicolon],rfl⟩

end Expecting

/-- Derivable kinds are those that lead to a head and then end. -/
theorem derivable_iff {kinds : List Token.Kind} :
    Derivable kinds ↔
      ∃ body, kinds = body++[.endOfInput] ∧ Expecting.after? .head body = some .head := by
  constructor
  · rintro ⟨starts,h⟩
    exact Expecting.after?_of_isGrammar h
  · rintro ⟨body,rfl,h⟩
    exact Expecting.completes_of_after? h

/-- With the end of the text behind them, derivable kinds are those that lead to
a head. -/
theorem derivable_append_end {kinds : List Token.Kind} :
    Derivable (kinds++[.endOfInput]) ↔ Expecting.after? .head kinds = some .head := by
  rw [derivable_iff]
  constructor
  · rintro ⟨body,he,h⟩
    rwa [List.append_cancel_right he]
  · intro h
    exact ⟨kinds,rfl,h⟩

/-- Kinds that lead anywhere are viable. -/
theorem viable_of_after? {kinds : List Token.Kind} {e : Expecting}
    (h : Expecting.after? .head kinds = some e) : Viable kinds := by
  obtain ⟨more,hm⟩ := e.exists_after?_eq_head
  refine ⟨more++[.endOfInput],?_⟩
  rw [←List.append_assoc,derivable_append_end,Expecting.after?_append_of_some h,hm]

/-- Viable kinds lead somewhere, as long as the end of the text is not reached. -/
theorem after?_of_viable {kinds : List Token.Kind} (h : Viable kinds)
    (hend : .endOfInput ∉ kinds) : ∃ e, Expecting.after? .head kinds = some e := by
  obtain ⟨more,h⟩ := h
  obtain ⟨body,he,hb⟩ := derivable_iff.mp h
  rcases List.append_eq_append_iff.mp he with ⟨others,hbody,_⟩|⟨others,hkinds,hothers⟩
  · rw [hbody,Expecting.after?_append,Option.bind_eq_some_iff] at hb
    obtain ⟨e,he,_⟩ := hb
    exact ⟨e,he⟩
  · cases others with
    | nil =>
      rw [List.append_nil] at hkinds
      exact ⟨.head,by rw [hkinds,hb]⟩
    | cons kind others =>
      obtain rfl : kind = .endOfInput := by
        have := congrArg List.head? hothers
        simpa using this.symm
      exact absurd (by rw [hkinds]; simp) hend

/-- At the end of the text only a head may be awaited. -/
theorem viable_append_end {kinds : List Token.Kind} :
    Viable (kinds++[.endOfInput]) ↔ Expecting.after? .head kinds = some .head := by
  constructor
  · rintro ⟨more,h⟩
    obtain ⟨body,he,hb⟩ := derivable_iff.mp h
    have hnot := Expecting.not_mem_of_after? hb
    have hlast : more = [] := by
      rcases List.eq_nil_or_concat more with rfl|⟨others,kind,rfl⟩
      · rfl
      · rw [List.concat_eq_append,←List.append_assoc] at he
        have hmem : .endOfInput ∈ body := by
          rw [←(List.append_inj' he rfl).1]
          simp
        exact absurd hmem hnot
    subst hlast
    rw [List.append_nil] at he
    rwa [List.append_cancel_right he]
  · intro h
    exact ⟨[],by rw [List.append_nil]; exact derivable_append_end.mpr h⟩

end GrammarCensus
