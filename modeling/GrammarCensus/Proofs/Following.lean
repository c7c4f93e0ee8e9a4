import GrammarCensus.Proofs.Derivation
import GrammarCensus.Proofs.Words

/-!
# Following tokens

What recognition does with one token, as a relation with one rule for each way
on and as the conditions of the two errors, and from that what a whole run over
tokens does. A run goes through exactly when the kinds lead somewhere and no
head of a rule-set is defined twice. It then has added one definition for each
head, one use for each other non-terminal, and has counted all names.
-/

namespace GrammarCensus

/-- The definition that a token makes where it is the head of a rule-set. -/
def Token.definition (t : Token) : Definition := ⟨t.lexeme,t.position⟩

/-- The non-terminals that stand right behind a semicolon, where a token of the
given kind stands before the first one. -/
def headsBehind : Token.Kind → List Token → List Token
  | _,[] => []
  | previous,t::tokens =>
    if previous = .semicolon ∧ t.kind = .nonTerminal then t::headsBehind t.kind tokens
    else headsBehind t.kind tokens

/-- The heads of rule-sets: the non-terminals that come first of all or right
behind a semicolon. -/
def heads (tokens : List Token) : List Token :=
  headsBehind .semicolon tokens

/-- The names of the non-terminals that do not stand right behind a semicolon,
where a word of the given kind stands before the first one. -/
def usesBehind : Token.Kind → List Word → List String
  | _,[] => []
  | previous,w::words =>
    if previous ≠ .semicolon ∧ w.kind = .nonTerminal then w.lexeme::usesBehind w.kind words
    else usesBehind w.kind words

/-- The heads of a list are those of its first token and those behind it. -/
theorem headsBehind_cons (previous : Token.Kind) (t : Token) (tokens : List Token) :
    headsBehind previous (t::tokens) =
      headsBehind previous [t]++headsBehind t.kind tokens := by
  simp only [headsBehind]
  split <;> rfl

/-- The heads of two lists in a row, the second one behind the last of the first. -/
theorem headsBehind_append (previous : Token.Kind) (first second : List Token) :
    headsBehind previous (first++second) = headsBehind previous first++
      headsBehind ((first.map (·.kind)).getLastD previous) second := by
  induction first generalizing previous with
  | nil => rfl
  | cons t first ih =>
    rw [List.cons_append,headsBehind_cons,ih,headsBehind_cons previous t first,
      List.append_assoc,List.map_cons,List.getLastD_cons]

/-- Without a semicolon in front there are no heads. -/
theorem headsBehind_eq_nil {previous : Token.Kind} {tokens : List Token}
    (hp : previous ≠ .semicolon) (h : .semicolon ∉ tokens.map (·.kind)) :
    headsBehind previous tokens = [] := by
  induction tokens generalizing previous with
  | nil => rfl
  | cons t tokens ih =>
    rw [List.map_cons,List.mem_cons,not_or] at h
    rw [headsBehind,if_neg fun hs => hp hs.1,ih (Ne.symm h.1) h.2]

/-- The tokens of a rule-set have their first one for their only head, and the
tokens behind them have the heads that they would have alone. -/
theorem heads_ruleSet {first : List Token} (h : IsRuleSet (first.map (·.kind)))
    (second : List Token) :
    ∃ t rest, first = t::rest ∧ heads (first++second) = t::heads second := by
  obtain ⟨body,hk,hb⟩ := h.eq_cons
  obtain ⟨t,rest,rfl,ht,hrest⟩ := List.map_eq_cons_iff.mp hk
  obtain ⟨inner,final,rfl,rfl,hfinal⟩ := List.map_eq_append_iff.mp hrest
  obtain ⟨last,_,rfl,hlast,hnil⟩ := List.map_eq_cons_iff.mp hfinal
  obtain rfl := List.map_eq_nil_iff.mp hnil
  have hinner : headsBehind t.kind (inner++[last]) = [] := by
    rw [headsBehind_append,headsBehind_eq_nil (by simp [ht]) hb,List.nil_append]
    simp [headsBehind,hlast]
  refine ⟨t,_,rfl,?_⟩
  rw [heads,headsBehind_append,headsBehind,if_pos ⟨rfl,ht⟩,hinner,hk,←List.cons_append,
    List.getLastD_concat]
  rfl

/-- The end of the text is no head. -/
theorem heads_append_end (tokens : List Token) {last : Token} (h : last.kind = .endOfInput) :
    heads (tokens++[last]) = heads tokens := by
  rw [heads,headsBehind_append]
  simp [headsBehind,h,heads]

/-- The heads of a derivable list of tokens are those with which the rule-sets of
its derivation begin. -/
theorem heads_of_isGrammar {kinds : List Token.Kind} {starts : List Nat}
    (h : IsGrammar kinds starts) {tokens : List Token} (hk : tokens.map (·.kind) = kinds) :
    heads tokens = starts.filterMap fun i => tokens[i]? := by
  induction h generalizing tokens with
  | endOfInput =>
    obtain ⟨t,_,rfl,ht,hnil⟩ := List.map_eq_cons_iff.mp hk
    obtain rfl := List.map_eq_nil_iff.mp hnil
    simp [heads,headsBehind,ht]
  | @ruleSet kinds others starts hr _ ih =>
    obtain ⟨first,second,rfl,rfl,hs⟩ := List.map_eq_append_iff.mp hk
    obtain ⟨t,rest,rfl,hh⟩ := heads_ruleSet hr second
    have hlater (i : Nat) : (t::rest++second)[(t::rest).length+i]? = second[i]? := by
      rw [List.getElem?_append_right (Nat.le_add_right ..),Nat.add_sub_cancel_left]
    rw [hh,ih hs,List.filterMap_cons,List.filterMap_map]
    simp only [Function.comp_def,List.length_map,hlater]
    rfl

/-- The uses in two lists in a row, the second one behind the last of the first. -/
theorem usesBehind_append (previous : Token.Kind) (first second : List Word) :
    usesBehind previous (first++second) = usesBehind previous first++
      usesBehind ((first.map (·.kind)).getLastD previous) second := by
  induction first generalizing previous with
  | nil => rfl
  | cons w first ih =>
    rw [List.cons_append,usesBehind,usesBehind,List.map_cons,List.getLastD_cons]
    split
    · rw [ih,List.cons_append]
    · rw [ih]

namespace Progress

/-- One token takes recognition from one state of progress to another, with one
rule for each place where a token may stand. -/
inductive Takes (p : Progress) (t : Token) : Progress → Prop
  /-- The head of a rule-set is defined and counted. -/
  | head {registry} : p.expecting = .head → t.kind = .nonTerminal →
      p.survey.registry.define t.lexeme t.position = .ok registry →
      Takes p t ⟨.colon,⟨registry,p.survey.nonTerminals+1,p.survey.terminals⟩⟩
  /-- The colon is passed over. -/
  | colon : p.expecting = .colon → t.kind = .colon → Takes p t ⟨.symbol,p.survey⟩
  /-- A terminal is counted. -/
  | terminal : p.expecting = .symbol → t.kind = .terminal →
      Takes p t ⟨.symbol,⟨p.survey.registry,p.survey.nonTerminals,p.survey.terminals+1⟩⟩
  /-- A non-terminal of an alternative is counted, and used. -/
  | nonTerminal : p.expecting = .symbol → t.kind = .nonTerminal →
      Takes p t ⟨.symbol,⟨p.survey.registry.noteUse t.lexeme,p.survey.nonTerminals+1,
        p.survey.terminals⟩⟩
  /-- A pipe is passed over. -/
  | pipe : p.expecting = .symbol → t.kind = .pipe → Takes p t ⟨.symbol,p.survey⟩
  /-- A semicolon is passed over. -/
  | semicolon : p.expecting = .symbol → t.kind = .semicolon → Takes p t ⟨.head,p.survey⟩

/-- A step goes through by one of the rules. -/
theorem takes_of_step {p p' : Progress} {t : Token} (h : p.step t = .ok p') : p.Takes t p' := by
  obtain ⟨expecting,survey⟩ := p
  rw [step] at h
  split at h
  case h_1 he hk =>
    split at h
    case h_1 => cases h
    case h_2 registry hd =>
      cases h
      exact .head he hk hd
  case h_2 he hk => cases h; exact .colon he hk
  case h_3 he hk => cases h; exact .terminal he hk
  case h_4 he hk => cases h; exact .nonTerminal he hk
  case h_5 he hk =>
    cases h
    obtain rfl : expecting = .symbol := he
    exact .pipe rfl hk
  case h_6 he hk => cases h; exact .semicolon he hk
  case h_7 => cases h

/-- A token that may not stand here is the error. -/
theorem step_of_next?_none {p : Progress} {t : Token}
    (h : p.expecting.next? t.kind = none) :
    p.step t = .error (.unexpected t.position t.lexeme) := by
  rw [step]
  split <;> simp_all [Expecting.next?]

/-- A head with a name that has a definition is the error. -/
theorem step_of_defined {p : Progress} {t : Token} {first : Position}
    (he : p.expecting = .head) (hk : t.kind = .nonTerminal)
    (h : p.survey.registry.position? t.lexeme = some first) :
    p.step t = .error (.redefined t.lexeme t.position first) := by
  rw [step,he,hk]
  dsimp only
  rw [Registry.define_of_some h]

/-- A token that may stand here goes through, except for a head with a name that
has a definition. -/
theorem exists_step {p : Progress} {t : Token} {e : Expecting}
    (h : p.expecting.next? t.kind = some e)
    (hnew : p.expecting = .head → p.survey.registry.position? t.lexeme = none) :
    ∃ p', p.step t = .ok p' := by
  rw [step]
  split
  case h_1 he hk =>
    obtain ⟨registry,hd,_⟩ := Registry.define_of_none (hnew he) t.position
    rw [hd]
    exact ⟨_,rfl⟩
  case h_7 => simp_all [Expecting.next?]
  all_goals exact ⟨_,rfl⟩

/-- The two errors of one step and their conditions. -/
theorem step_error {p : Progress} {t : Token} {e : SyntaxError} (h : p.step t = .error e) :
    p.expecting.next? t.kind = none ∧ e = .unexpected t.position t.lexeme ∨
    ∃ first, p.expecting = .head ∧ t.kind = .nonTerminal ∧
      p.survey.registry.position? t.lexeme = some first ∧
      e = .redefined t.lexeme t.position first := by
  cases hn : p.expecting.next? t.kind with
  | none =>
    rw [step_of_next?_none hn] at h
    exact Or.inl ⟨rfl,(Except.error.inj h).symm⟩
  | some next =>
    right
    by_cases hnew : p.expecting = .head → p.survey.registry.position? t.lexeme = none
    · obtain ⟨p',hp⟩ := exists_step hn hnew
      rw [hp] at h
      cases h
    · obtain ⟨he,hdef⟩ := Classical.not_imp.mp hnew
      obtain ⟨first,hf⟩ := Option.ne_none_iff_exists'.mp hdef
      rw [he] at hn
      have hk := Expecting.eq_nonTerminal_of_next?_head hn
      rw [step_of_defined he hk hf] at h
      exact ⟨first,he,hk,hf,(Except.error.inj h).symm⟩

/-- A head is awaited just where the kind before is a semicolon. -/
def Behind (p : Progress) (previous : Token.Kind) : Prop :=
  p.expecting = .head ↔ previous = .semicolon

/-- The findings that tokens add, where a token of the given kind stands before
the first one. -/
structure Reads (p : Progress) (previous : Token.Kind) (tokens : List Token)
    (p' : Progress) : Prop where
  /-- The kinds lead from the one state to the other. -/
  expecting : p.expecting.after? (tokens.map (·.kind)) = some p'.expecting
  /-- Each head has been defined where it stands. -/
  definitions : p'.survey.registry.definitions =
    p.survey.registry.definitions++(headsBehind previous tokens).map Token.definition
  /-- Every other non-terminal has been used. -/
  used : ∀ x, x ∈ p'.survey.registry.used ↔
    x ∈ p.survey.registry.used ∨ x ∈ usesBehind previous (tokens.map Token.word)
  /-- All non-terminals have been counted. -/
  nonTerminals : p'.survey.nonTerminals =
    p.survey.nonTerminals+tokens.countP (·.kind = .nonTerminal)
  /-- All terminals have been counted. -/
  terminals : p'.survey.terminals = p.survey.terminals+tokens.countP (·.kind = .terminal)

/-- The kind of a token is the kind before the next one. -/
theorem Takes.behind {p p' : Progress} {t : Token} (h : p.Takes t p') : p'.Behind t.kind := by
  cases h <;> simp_all [Behind]

/-- The kinds of a step. -/
theorem Takes.next? {p p' : Progress} {t : Token} (h : p.Takes t p') :
    p.expecting.next? t.kind = some p'.expecting := by
  cases h <;> simp_all [Expecting.next?]

/-- What one token adds to the findings. -/
theorem Takes.reads {p p' : Progress} {t : Token} {previous : Token.Kind}
    (h : p.Takes t p') (hp : p.Behind previous) : p.Reads previous [t] p' := by
  have hn := h.next?
  have hafter : p.expecting.after? ([t].map (·.kind)) = some p'.expecting := by
    rw [List.map_cons,Expecting.after?_cons,hn]
    rfl
  cases h with
  | head he hk hd =>
    have hs := hp.mp he
    obtain hnone|⟨first,hfirst⟩ := Option.eq_none_or_eq_some (p.survey.registry.position? t.lexeme)
    · obtain ⟨registry,hr,hdefs,hused⟩ := Registry.define_of_none hnone t.position
      obtain rfl := Except.ok.inj (hr.symm.trans hd)
      refine ⟨hafter,?_,?_,?_,?_⟩
      · simp [hdefs,headsBehind,hs,hk,Token.definition]
      · simp [hused,usesBehind,hs]
      · simp [hk]
      · simp [hk]
    · rw [Registry.define_of_some hfirst] at hd
      cases hd
  | nonTerminal he hk =>
    have hs : previous ≠ .semicolon := fun h => by simp [hp.mpr h] at he
    refine ⟨hafter,?_,?_,?_,?_⟩
    · simp [headsBehind,hs,Registry.noteUse]
    · intro x
      simp [usesBehind,hs,Registry.noteUse,Token.word,hk,or_comm]
    · simp [hk]
    · simp [hk]
  | colon he hk | terminal he hk | pipe he hk | semicolon he hk =>
    refine ⟨hafter,?_,?_,?_,?_⟩
    all_goals simp [headsBehind,usesBehind,Token.word,hk]

/-- Findings that are added one after the other are added in one. -/
theorem Reads.append {p middle p' : Progress} {previous : Token.Kind}
    {first second : List Token} (hfirst : p.Reads previous first middle)
    (hsecond : middle.Reads ((first.map (·.kind)).getLastD previous) second p') :
    p.Reads previous (first++second) p' where
  expecting := by
    rw [List.map_append,Expecting.after?_append_of_some hfirst.expecting,hsecond.expecting]
  definitions := by
    rw [hsecond.definitions,hfirst.definitions,headsBehind_append,List.map_append,
      List.append_assoc]
  used x := by
    rw [hsecond.used,hfirst.used,List.map_append,usesBehind_append,List.mem_append,
      kinds_words,or_assoc]
  nonTerminals := by
    rw [hsecond.nonTerminals,hfirst.nonTerminals,List.countP_append,Nat.add_assoc]
  terminals := by
    rw [hsecond.terminals,hfirst.terminals,List.countP_append,Nat.add_assoc]

/-- Follows tokens one after the other. -/
def run (p : Progress) (tokens : List Token) : Except SyntaxError Progress :=
  tokens.foldlM step p

/-- Behind a step the others are followed. -/
theorem run_cons_of_ok {p middle : Progress} {t : Token} (h : p.step t = .ok middle)
    (tokens : List Token) : p.run (t::tokens) = middle.run tokens := by
  rw [run,List.foldlM_cons,h]
  rfl

/-- An error ends a run. -/
theorem run_cons_of_error {p : Progress} {t : Token} {e : SyntaxError}
    (h : p.step t = .error e) (tokens : List Token) : p.run (t::tokens) = .error e := by
  rw [run,List.foldlM_cons,h]
  rfl

/-- Behind the first tokens the others are followed. -/
theorem run_append_of_ok {p middle : Progress} {first : List Token}
    (h : p.run first = .ok middle) (second : List Token) :
    p.run (first++second) = middle.run second := by
  rw [run,List.foldlM_append]
  rw [run] at h
  rw [h]
  rfl

/-- What a run that goes through adds to the findings. -/
theorem reads_of_run {p p' : Progress} {previous : Token.Kind} {tokens : List Token}
    (hp : p.Behind previous) (h : p.run tokens = .ok p') : p.Reads previous tokens p' := by
  induction tokens generalizing p previous with
  | nil =>
    obtain rfl := Except.ok.inj h
    exact ⟨rfl,by simp [headsBehind],by simp [usesBehind],rfl,rfl⟩
  | cons t tokens ih =>
    cases hs : p.step t with
    | error e =>
      rw [run_cons_of_error hs] at h
      cases h
    | ok middle =>
      rw [run_cons_of_ok hs] at h
      have ht := takes_of_step hs
      exact (ht.reads hp).append (ih ht.behind h)

/-- A run goes through exactly when the kinds lead somewhere and no name is
defined twice, whether before the run or by it. -/
theorem run_isOk_iff {p : Progress} {previous : Token.Kind} (hp : p.Behind previous)
    (tokens : List Token) :
    (∃ p', p.run tokens = .ok p') ↔
      (∃ e, p.expecting.after? (tokens.map (·.kind)) = some e) ∧
      ((p.survey.registry.definitions++(headsBehind previous tokens).map
        Token.definition).map (·.name)).Nodup := by
  constructor
  · rintro ⟨p',h⟩
    have hr := reads_of_run hp h
    refine ⟨⟨_,hr.expecting⟩,?_⟩
    rw [←hr.definitions]
    exact p'.survey.registry.nodup
  · rintro ⟨⟨e,he⟩,hn⟩
    induction tokens generalizing p previous with
    | nil => exact ⟨p,rfl⟩
    | cons t tokens ih =>
      rw [List.map_cons,Expecting.after?_cons,Option.bind_eq_some_iff] at he
      obtain ⟨next,hnext,he⟩ := he
      have hnew : p.expecting = .head → p.survey.registry.position? t.lexeme = none := by
        intro hhead
        rw [hhead] at hnext
        have hk := Expecting.eq_nonTerminal_of_next?_head hnext
        rw [headsBehind,if_pos ⟨hp.mp hhead,hk⟩,List.map_append,List.nodup_append] at hn
        refine Registry.position?_eq_none.mpr fun hmem => hn.2.2 _ hmem t.lexeme ?_ rfl
        simp [Token.definition]
      obtain ⟨middle,hs⟩ := exists_step hnext hnew
      have ht := takes_of_step hs
      have hdefs := (ht.reads hp).definitions
      rw [run_cons_of_ok hs]
      refine ih ht.behind ?_ ?_
      · rwa [hdefs,List.append_assoc,←List.map_append,←headsBehind_cons]
      · have hm : some middle.expecting = some next := ht.next?.symm.trans hnext
        rw [Option.some.inj hm,he]

/-- A run that fails goes through up to one token, and fails there. -/
theorem run_error {p : Progress} {tokens : List Token} {e : SyntaxError}
    (h : p.run tokens = .error e) :
    ∃ front t back middle, tokens = front++t::back ∧ p.run front = .ok middle ∧
      middle.step t = .error e := by
  induction tokens generalizing p with
  | nil => cases h
  | cons t tokens ih =>
    cases hs : p.step t with
    | error e' =>
      rw [run_cons_of_error hs] at h
      obtain rfl := Except.error.inj h
      exact ⟨[],t,tokens,p,rfl,rfl,hs⟩
    | ok middle =>
      rw [run_cons_of_ok hs] at h
      obtain ⟨front,t',back,last,rfl,hf,ht⟩ := ih h
      exact ⟨t::front,t',back,last,rfl,by rw [run_cons_of_ok hs,hf],ht⟩

end Progress

end GrammarCensus
