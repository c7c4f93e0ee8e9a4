import GrammarCensus.Proofs.Findings
import GrammarCensus.Proofs.Reading

/-!
# The first error

A text that is not accepted has exactly one token at which an error could not be
put off: the tokens before it are viable and have heads with different names,
and either it makes the kinds unviable or it is a head with the name of an
earlier one. The main statement is that this token is the one reported, with the
position of that earlier head. Nothing behind it has any influence.
-/

namespace GrammarCensus

open Progress

/-- The token at a place is the head of a rule-set: a non-terminal that comes first
or has a semicolon right before it. -/
def HeadAt (tokens : List Token) (i : Nat) (t : Token) : Prop :=
  tokens[i]? = some t ∧ t.kind = .nonTerminal ∧
    (i = 0 ∨ ∃ u, tokens[i-1]? = some u ∧ u.kind = .semicolon)

/-- The heads among the first `k` tokens have different lexemes. -/
def HeadsDiffer (tokens : List Token) (k : Nat) : Prop :=
  ∀ i j t u, i < j → j < k → HeadAt tokens i t → HeadAt tokens j u → t.lexeme ≠ u.lexeme

/-- Why an error cannot be put off beyond the token at a place: with it the kinds
are not viable any more, or it is a head, and one and only one head before it has
the same lexeme. -/
inductive Unavoidable (tokens : List Token) (k : Nat) (t : Token) : SyntaxError → Prop
  /-- Nothing that begins with the kinds up to this token can be derived. -/
  | unexpected : ¬Viable ((tokens.take (k+1)).map (·.kind)) →
      Unavoidable tokens k t (.unexpected t.position t.lexeme)
  /-- The token is a head, and the only head before it with its lexeme lies in an
  earlier place of the text. -/
  | redefined {j first} : HeadAt tokens k t → j < k → HeadAt tokens j first →
      first.lexeme = t.lexeme →
      (∀ i u, i < k → HeadAt tokens i u → u.lexeme = t.lexeme → i = j) →
      first.position < t.position →
      Unavoidable tokens k t (.redefined t.lexeme t.position first.position)

/-- The first token at which an error cannot be avoided, and that error. -/
structure FirstError (tokens : List Token) (e : SyntaxError) (k : Nat) : Prop where
  /-- The kinds before the token are viable. -/
  viable : Viable ((tokens.take k).map (·.kind))
  /-- The heads before the token have different lexemes. -/
  headsDiffer : HeadsDiffer tokens k
  /-- The error cannot be put off any further. -/
  unavoidable : ∃ t, tokens[k]? = some t ∧ Unavoidable tokens k t e

/-- A head, seen from the tokens before it and behind it. -/
theorem headAt_iff_split {tokens : List Token} {i : Nat} {t : Token} :
    HeadAt tokens i t ↔ ∃ front back, tokens = front++t::back ∧ front.length = i ∧
      t.kind = .nonTerminal ∧ (front.map (·.kind)).getLastD .semicolon = .semicolon := by
  have hprevious (front back : List Token) :
      (front.map (·.kind)).getLastD .semicolon = .semicolon ↔ front.length = 0 ∨
        ∃ u, (front++t::back)[front.length-1]? = some u ∧ u.kind = .semicolon := by
    rcases List.eq_nil_or_concat front with rfl|⟨inner,last,rfl⟩ <;> simp
  constructor
  · rintro ⟨ht,hk,hs⟩
    obtain ⟨front,back,rfl,rfl⟩ := getElem?_eq_some_iff_split.mp ht
    exact ⟨front,back,rfl,rfl,hk,(hprevious front back).mpr hs⟩
  · rintro ⟨front,back,rfl,rfl,hk,hs⟩
    exact ⟨getElem?_eq_some_iff_split.mpr ⟨front,back,rfl,rfl⟩,hk,(hprevious front back).mp hs⟩

/-- Whether a token is a head does not depend on those behind it. -/
theorem headAt_append_left {front back : List Token} {i : Nat} {t : Token}
    (h : i < front.length) : HeadAt (front++back) i t ↔ HeadAt front i t := by
  have hbefore : i-1 < front.length := by omega
  rw [HeadAt,HeadAt,List.getElem?_append_left h,List.getElem?_append_left hbefore]

/-- The heads of a list are those at its places. -/
theorem mem_heads_iff {tokens : List Token} {t : Token} :
    t ∈ heads tokens ↔ ∃ i, HeadAt tokens i t := by
  rw [heads,mem_headsBehind]
  constructor
  · rintro ⟨front,back,he,hk,hs⟩
    exact ⟨front.length,headAt_iff_split.mpr ⟨front,back,he,rfl,hk,hs⟩⟩
  · rintro ⟨i,h⟩
    obtain ⟨front,back,he,_,hk,hs⟩ := headAt_iff_split.mp h
    exact ⟨front,back,he,hk,hs⟩

/-- Heads without a repeated lexeme differ wherever they stand. -/
theorem headsDiffer_of_nodup {front back : List Token}
    (h : ((heads front).map (·.lexeme)).Nodup) :
    HeadsDiffer (front++back) front.length := by
  intro i j t u hij hj ht hu
  rw [headAt_append_left hj] at hu
  rw [headAt_append_left (Nat.lt_trans hij hj)] at ht
  obtain ⟨before,behind,rfl,rfl,hk,hs⟩ := headAt_iff_split.mp hu
  have hmem : t ∈ heads before := mem_heads_iff.mpr ⟨i,(headAt_append_left hij).mp ht⟩
  rw [heads,headsBehind_append,headsBehind,if_pos ⟨hs,hk⟩,List.map_append,List.nodup_append] at h
  exact h.2.2 _ (List.mem_map_of_mem hmem) _ (List.mem_map_of_mem List.mem_cons_self)

/-- There is no more than one first error. -/
theorem FirstError.unique {tokens : List Token} {e : SyntaxError} {k k' : Nat}
    (h : FirstError tokens e k) (h' : FirstError tokens e k') : k = k' := by
  have hle {k k' : Nat} (h : FirstError tokens e k) (h' : FirstError tokens e k') : ¬k < k' := by
    intro hlt
    obtain ⟨t,_,hcause⟩ := h.unavoidable
    cases hcause with
    | unexpected hnot =>
      have hviable := h'.viable
      rw [←List.take_append_drop (k+1) (tokens.take k'),List.take_take,
        Nat.min_eq_left hlt,List.map_append] at hviable
      exact hnot hviable.of_append
    | redefined ht hj hfirst hlexeme =>
      exact h'.headsDiffer _ _ _ _ hj hlt hfirst ht hlexeme
  have h₁ := hle h h'
  have h₂ := hle h' h
  omega

/-- A token is one of the others where it is not the last of all tokens, and the
last of all tokens is the end. -/
theorem allTokens_eq_append {text : String} {front back : List Token} {t : Token}
    (h : allTokens text = front++t::back) :
    (∃ others, tokens text = front++t::others) ∨
      tokens text = front ∧ t = endToken text := by
  rcases List.eq_nil_or_concat back with rfl|⟨others,last,rfl⟩
  · exact Or.inr ⟨(List.append_inj' h rfl).1,(List.cons.inj (List.append_inj' h rfl).2).1.symm⟩
  · rw [List.concat_eq_append,←List.cons_append,←List.append_assoc] at h
    exact Or.inl ⟨others,(List.append_inj' h rfl).1⟩

/-- The end of the text stands behind all the other tokens. -/
theorem allTokens_of_tokens {text : String} {front back : List Token} {t : Token}
    (h : tokens text = front++t::back) :
    allTokens text = front++t::(back++[endToken text]) := by
  rw [allTokens,h,List.append_assoc,List.cons_append]

/-- A text with an error is read up to the token at which the error arises. -/
theorem exists_split_of_survey_error {text : String} {e : SyntaxError}
    (h : survey text = .error e) :
    ∃ front t back p, allTokens text = front++t::back ∧
      (begin (firstToken text)).run front = .ok p ∧ p.step t = .error e ∧
      (t.kind = .endOfInput → p.expecting ≠ .head) := by
  cases hr : (begin (firstToken text)).run (tokens text) with
  | error e' =>
    rw [survey_of_run_error hr] at h
    obtain rfl := Except.error.inj h
    obtain ⟨front,t,back,p,hsplit,hp,hs⟩ := run_error hr
    have hmem : t ∈ tokens text := by
      rw [hsplit]
      exact List.mem_append_right _ List.mem_cons_self
    exact ⟨front,t,back++[endToken text],p,allTokens_of_tokens hsplit,hp,hs,
      fun hend => absurd hend (kind_ne_of_mem_tokens hmem)⟩
  | ok p =>
    have hne : p.expecting ≠ .head := by
      intro he
      rw [survey_of_run hr he] at h
      cases h
    rw [survey_of_run_unfinished hr hne] at h
    obtain rfl := Except.error.inj h
    refine ⟨tokens text,endToken text,[],p,rfl,hr,?_,fun _ => hne⟩
    exact step_of_next?_none (p.expecting.next?_endOfInput)

/-- A text that is read up to a token at which an error arises has that error,
whatever the tokens behind it are. -/
theorem survey_error_of_split {text : String} {e : SyntaxError} {front back : List Token}
    {t : Token} {p : Progress} (hsplit : allTokens text = front++t::back)
    (hrun : (begin (firstToken text)).run front = .ok p) (hstep : p.step t = .error e)
    (hend : t.kind = .endOfInput → p.expecting ≠ .head) : survey text = .error e := by
  rcases allTokens_eq_append hsplit with ⟨others,ht⟩|⟨rfl,rfl⟩
  · apply survey_of_run_error
    rw [ht,run_append_of_ok hrun,run_cons_of_error hstep]
  · rw [step_of_next?_none (p.expecting.next?_endOfInput)] at hstep
    rw [survey_of_run_unfinished hrun (hend rfl),Except.error.inj hstep]

/-- A head with the name of one before it is the error of a text, where the tokens
before it are complete rule-sets with different names. -/
theorem survey_redefined {text : String} {front back : List Token} {t first : Token}
    (hsplit : tokens text = front++t::back)
    (hclosed : Expecting.after? .head (front.map (·.kind)) = some .head)
    (hnodup : ((heads front).map (·.lexeme)).Nodup) (ht : t.kind = .nonTerminal)
    (hfirst : first ∈ heads front) (hlexeme : first.lexeme = t.lexeme) :
    survey text = .error (.redefined t.lexeme t.position first.position) := by
  obtain ⟨p,hrun,he⟩ := exists_run_begin hclosed hnodup (firstToken text)
  have hdefs : p.survey.registry.definitions = (heads front).map Token.definition :=
    (reads_of_run (begin_behind _) hrun).definitions
  have hposition : p.survey.registry.position? t.lexeme = some first.position :=
    (Registry.position?_of_definitions hdefs).mpr ⟨first,hfirst,hlexeme,rfl⟩
  exact survey_error_of_split (allTokens_of_tokens hsplit) hrun (step_of_defined he ht hposition)
    (by rw [ht]; simp)

/-- Kinds that lead to a state are viable with one more kind only if the state
allows it. -/
theorem not_viable_of_next?_none {kinds : List Token.Kind} {kind : Token.Kind} {e : Expecting}
    (h : Expecting.after? .head kinds = some e) (hn : e.next? kind = none)
    (hend : kind = .endOfInput → e ≠ .head) : ¬Viable (kinds++[kind]) := by
  intro hviable
  by_cases hk : kind = .endOfInput
  · subst hk
    rw [viable_append_end,h] at hviable
    exact hend rfl (Option.some.inj hviable)
  · have hnot : .endOfInput ∉ kinds++[kind] := by
      simp [Expecting.not_mem_of_after? h,Ne.symm hk]
    obtain ⟨e',he'⟩ := after?_of_viable hviable hnot
    rw [Expecting.after?_append_of_some h,Expecting.after?_cons,hn] at he'
    cases he'

/-- A head with the name of one before it, where the heads before it differ, is an
error that cannot be put off. -/
theorem unavoidable_of_mem_heads {text : String} {front back : List Token} {t first : Token}
    (hsplit : allTokens text = front++t::back)
    (hdiffer : HeadsDiffer (allTokens text) front.length)
    (ht : HeadAt (allTokens text) front.length t) (hfirst : first ∈ heads front)
    (hlexeme : first.lexeme = t.lexeme) : Unavoidable (allTokens text) front.length t
      (.redefined t.lexeme t.position first.position) := by
  obtain ⟨j,hj⟩ := mem_heads_iff.mp hfirst
  have hlt : j < front.length := (List.getElem?_eq_some_iff.mp hj.1).1
  have hearlier : HeadAt (allTokens text) j first := by
    rw [hsplit]
    exact (headAt_append_left hlt).mpr hj
  have hposition : first.position < t.position := position_lt_of_lt hlt hearlier.1 ht.1
  refine .redefined ht hlt hearlier hlexeme ?_ hposition
  intro i u hi hu hsame
  have hlexemes : u.lexeme = first.lexeme := hsame.trans hlexeme.symm
  rcases Nat.lt_trichotomy i j with hij|hij|hij
  · exact absurd hlexemes (hdiffer _ _ _ _ hij hlt hu hearlier)
  · exact hij
  · exact absurd hlexemes.symm (hdiffer _ _ _ _ hij hi hearlier hu)

/-- The token at which an error arises is a first error. -/
theorem firstError_of_split {text : String} {e : SyntaxError} {front back : List Token}
    {t : Token} {p : Progress} (hsplit : allTokens text = front++t::back)
    (hrun : (begin (firstToken text)).run front = .ok p) (hstep : p.step t = .error e)
    (hend : t.kind = .endOfInput → p.expecting ≠ .head) :
    FirstError (allTokens text) e front.length := by
  have hr := reads_of_run (begin_behind _) hrun
  have hdefs : p.survey.registry.definitions = (heads front).map Token.definition :=
    hr.definitions
  have hdiffer : HeadsDiffer (allTokens text) front.length := by
    have hnames := ((exists_run_begin_iff _ _).mp ⟨p,hrun⟩).2
    rw [hsplit]
    exact headsDiffer_of_nodup hnames
  have hviable : Viable (((allTokens text).take front.length).map (·.kind)) := by
    rw [hsplit,List.take_left]
    exact viable_of_after? hr.expecting
  have hplace : (allTokens text)[front.length]? = some t :=
    getElem?_eq_some_iff_split.mpr ⟨front,back,hsplit,rfl⟩
  refine ⟨hviable,hdiffer,t,hplace,?_⟩
  rcases step_error hstep with ⟨hn,rfl⟩|⟨position,he,hk,hposition,rfl⟩
  · have hnot := not_viable_of_next?_none hr.expecting hn hend
    apply Unavoidable.unexpected
    rw [hsplit,List.take_length_add_append,List.map_append]
    exact hnot
  · have hlast : (front.map (·.kind)).getLastD .semicolon = .semicolon :=
      (Expecting.after?_eq_head_iff (begin_behind _) hr.expecting).mp he
    obtain ⟨first,hfirst,hlexeme,rfl⟩ := (Registry.position?_of_definitions hdefs).mp hposition
    have ht := headAt_iff_split.mpr ⟨front,back,hsplit,rfl,hk,hlast⟩
    exact unavoidable_of_mem_heads hsplit hdiffer ht hfirst hlexeme

/-- A text that is not accepted has exactly one first error, and that is the one
reported. Every text with the same tokens up to there has it too, so nothing that
comes later can displace it. -/
theorem survey_error_isFirst {text : String} {e : SyntaxError} (h : survey text = .error e) :
    (∃! k, FirstError (allTokens text) e k) ∧
    ∀ k, FirstError (allTokens text) e k → ∀ other : String,
      (allTokens other).take (k+1) = (allTokens text).take (k+1) → survey other = .error e := by
  obtain ⟨front,t,back,p,hsplit,hrun,hstep,hend⟩ := exists_split_of_survey_error h
  have hfirst := firstError_of_split hsplit hrun hstep hend
  refine ⟨⟨front.length,hfirst,fun k hk => hk.unique hfirst⟩,?_⟩
  intro k hk other hother
  obtain rfl := hk.unique hfirst
  have hupto : (allTokens other).take (front.length+1) = front++[t] := by
    rw [hother,hsplit,List.take_length_add_append]
    rfl
  have hsame : firstToken other = firstToken text := by
    have hzero := congrArg (·[0]?) hother
    simpa [List.getElem?_take,getElem?_zero_allTokens] using hzero
  have hsplit' : allTokens other = front++t::(allTokens other).drop (front.length+1) := by
    rw [←List.singleton_append,←List.append_assoc,←hupto,List.take_append_drop]
  exact survey_error_of_split hsplit' (by rw [hsame]; exact hrun) hstep hend

/-- Of a second definition and a missing colon behind it, the definition is reported. -/
theorem survey_error_isFirst_redefined :
    survey "s : A ;\ns ;" = .error (.redefined "s" ⟨2,1⟩ ⟨1,1⟩) ∧
    ∃! k, FirstError (allTokens "s : A ;\ns ;") (.redefined "s" ⟨2,1⟩ ⟨1,1⟩) k := by
  have h : survey "s : A ;\ns ;" = .error (.redefined "s" ⟨2,1⟩ ⟨1,1⟩) := by
    decide +kernel
  exact ⟨h,(survey_error_isFirst h).1⟩

end GrammarCensus
