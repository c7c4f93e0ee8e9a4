import Mathlib.Data.List.Nodup
import GrammarCensus.Proofs.Acceptance

/-!
# The findings on an accepted text

What a survey says, read off the tokens alone. In an accepted text the heads of
rule-sets are the non-terminals that a colon follows at once, and every other
non-terminal is a use, so neither the state of recognition nor the order of its
steps is left in the main statement.
-/

namespace GrammarCensus

/-- A name is defined at a position when the registry holds that definition. -/
theorem Registry.position?_eq_some {r : Registry} {name : String} {position : Position} :
    r.position? name = some position ↔ ⟨name,position⟩ ∈ r.definitions := by
  have hmem {p : Position} (h : r.position? name = some p) : ⟨name,p⟩ ∈ r.definitions := by
    obtain ⟨d,hd,rfl⟩ := Option.map_eq_some_iff.mp h
    obtain rfl : d.name = name := by simpa using List.find?_some hd
    exact List.mem_of_find?_eq_some hd
  refine ⟨hmem,fun h => ?_⟩
  cases hp : r.position? name with
  | none => exact absurd (List.mem_map_of_mem h) (position?_eq_none.mp hp)
  | some first =>
    have heq := List.inj_on_of_nodup_map r.nodup h (hmem hp) rfl
    rw [(Definition.mk.inj heq).2]

/-- Where heads of tokens are all that is defined, a name is defined at a position
when a head with that name lies there. -/
theorem Registry.position?_of_definitions {r : Registry} {tokens : List Token}
    (h : r.definitions = (heads tokens).map Token.definition) {name : String}
    {position : Position} : r.position? name = some position ↔
      ∃ t ∈ heads tokens, t.lexeme = name ∧ t.position = position := by
  rw [position?_eq_some,h,List.mem_map]
  constructor
  · rintro ⟨t,ht,hd⟩
    exact ⟨t,ht,Definition.mk.inj hd⟩
  · rintro ⟨t,ht,rfl,rfl⟩
    exact ⟨t,ht,rfl⟩

/-- The token behind the one at a place is of a kind. -/
def FollowedBy (tokens : List Token) (i : Nat) (kind : Token.Kind) : Prop :=
  ∃ t, tokens[i+1]? = some t ∧ t.kind = kind

/-- A place in a list splits it into what is before, the entry and what is behind. -/
theorem getElem?_eq_some_iff_split {α : Type} {entries : List α} {i : Nat} {entry : α} :
    entries[i]? = some entry ↔
      ∃ front back, entries = front++entry::back ∧ front.length = i := by
  constructor
  · intro h
    obtain ⟨hi,rfl⟩ := List.getElem?_eq_some_iff.mp h
    refine ⟨entries.take i,entries.drop (i+1),?_,List.length_take_of_le (Nat.le_of_lt hi)⟩
    rw [←List.drop_eq_getElem_cons hi,List.take_append_drop]
  · rintro ⟨front,back,rfl,rfl⟩
    rw [List.getElem?_append_right (Nat.le_refl _),Nat.sub_self]
    rfl

/-- A head is a non-terminal with a semicolon right before it. -/
theorem mem_headsBehind {previous : Token.Kind} {tokens : List Token} {t : Token} :
    t ∈ headsBehind previous tokens ↔
      ∃ front back, tokens = front++t::back ∧ t.kind = .nonTerminal ∧
        (front.map (·.kind)).getLastD previous = .semicolon := by
  constructor
  · intro h
    induction tokens generalizing previous with
    | nil => cases h
    | cons u tokens ih =>
      rw [headsBehind_cons,List.mem_append] at h
      rcases h with h|h
      · rw [headsBehind] at h
        split at h
        · next hu =>
          obtain rfl : t = u := by simpa [headsBehind] using h
          exact ⟨[],tokens,rfl,hu.2,hu.1⟩
        · cases h
      · obtain ⟨front,back,rfl,hk,hs⟩ := ih h
        exact ⟨u::front,back,rfl,hk,by rwa [List.map_cons,List.getLastD_cons]⟩
  · rintro ⟨front,back,rfl,hk,hs⟩
    rw [headsBehind_append,headsBehind,if_pos ⟨hs,hk⟩]
    exact List.mem_append_right _ List.mem_cons_self

/-- A use is a non-terminal without a semicolon right before it. -/
theorem mem_usesBehind {previous : Token.Kind} {tokens : List Token} {x : String} :
    x ∈ usesBehind previous (tokens.map Token.word) ↔
      ∃ front t back, tokens = front++t::back ∧ t.kind = .nonTerminal ∧ t.lexeme = x ∧
        (front.map (·.kind)).getLastD previous ≠ .semicolon := by
  constructor
  · intro h
    induction tokens generalizing previous with
    | nil => cases h
    | cons u tokens ih =>
      have hrest (h : x ∈ usesBehind u.kind (tokens.map Token.word)) :
          ∃ front t back, u::tokens = front++t::back ∧ t.kind = .nonTerminal ∧ t.lexeme = x ∧
            (front.map (·.kind)).getLastD previous ≠ .semicolon := by
        obtain ⟨front,t,back,rfl,hk,hx,hs⟩ := ih h
        exact ⟨u::front,t,back,rfl,hk,hx,by rwa [List.map_cons,List.getLastD_cons]⟩
      rw [List.map_cons,usesBehind] at h
      split at h
      · next hu =>
        rcases List.mem_cons.mp h with rfl|h
        · exact ⟨[],u,tokens,rfl,hu.2,rfl,hu.1⟩
        · exact hrest h
      · exact hrest h
  · rintro ⟨front,t,back,rfl,hk,rfl,hs⟩
    rw [List.map_append,usesBehind_append,kinds_words,List.map_cons,usesBehind,if_pos ⟨hs,hk⟩]
    exact List.mem_append_right _ List.mem_cons_self

namespace Expecting

/-- Where the beginning of the kinds leads, and the rest from there. -/
theorem after?_append_eq_some {e last : Expecting} {first second : List Token.Kind}
    (h : e.after? (first++second) = some last) :
    ∃ middle, e.after? first = some middle ∧ middle.after? second = some last := by
  rwa [after?_append,Option.bind_eq_some_iff] at h

/-- Behind some kinds a head is awaited just where the last of them is a semicolon. -/
theorem after?_eq_head_iff {e next : Expecting} {previous : Token.Kind}
    {kinds : List Token.Kind} (hb : e = .head ↔ previous = .semicolon)
    (h : e.after? kinds = some next) :
    next = .head ↔ kinds.getLastD previous = .semicolon := by
  induction kinds generalizing e previous with
  | nil =>
    obtain rfl := Option.some.inj h
    exact hb
  | cons kind kinds ih =>
    rw [after?_cons,Option.bind_eq_some_iff] at h
    obtain ⟨middle,hm,h⟩ := h
    rw [List.getLastD_cons]
    exact ih (next?_eq_head_iff hm) h

/-- Every head is followed by one colon and, later, one semicolon, so up to those
that are still awaited there are as many of each. -/
theorem length_headsBehind {e next : Expecting} {previous : Token.Kind} {tokens : List Token}
    (hb : e = .head ↔ previous = .semicolon)
    (h : e.after? (tokens.map (·.kind)) = some next) :
    (headsBehind previous tokens).length+(if e = .colon then 1 else 0) =
      tokens.countP (·.kind = .colon)+(if next = .colon then 1 else 0) ∧
    (headsBehind previous tokens).length+(if e = .head then 0 else 1) =
      tokens.countP (·.kind = .semicolon)+(if next = .head then 0 else 1) := by
  induction tokens generalizing e previous with
  | nil =>
    obtain rfl := Option.some.inj h
    simp [headsBehind]
  | cons t tokens ih =>
    rw [List.map_cons,after?_cons,Option.bind_eq_some_iff] at h
    obtain ⟨middle,hm,h⟩ := h
    obtain ⟨hcolon,hsemicolon⟩ := ih (next?_eq_head_iff hm) h
    rw [headsBehind,List.countP_cons,List.countP_cons]
    cases e with
    | head =>
      have hs := hb.mp rfl
      cases hk : t.kind <;> simp only [next?,hk,Option.some.injEq,reduceCtorEq] at hm
      subst hm
      simp [hs,hk] at hcolon hsemicolon ⊢
      omega
    | colon =>
      have hs : previous ≠ .semicolon := fun h => by simpa using hb.mpr h
      cases hk : t.kind <;> simp only [next?,hk,Option.some.injEq,reduceCtorEq] at hm
      subst hm
      simp [hs,hk] at hcolon hsemicolon ⊢
      omega
    | symbol =>
      have hs : previous ≠ .semicolon := fun h => by simpa using hb.mpr h
      cases hk : t.kind <;> simp only [next?,hk,Option.some.injEq,reduceCtorEq] at hm
      all_goals subst hm
      all_goals simp [hs,hk] at hcolon hsemicolon ⊢
      all_goals omega

/-- A colon is awaited behind a head and nowhere else. -/
theorem next?_eq_colon_iff {e next : Expecting} {kind : Token.Kind}
    (h : e.next? kind = some next) : next = .colon ↔ e = .head := by
  cases e <;> cases kind <;> simp only [next?,Option.some.injEq,reduceCtorEq] at h
  all_goals subst h
  all_goals decide

/-- A colon may come where it is awaited and nowhere else. -/
theorem kind_eq_colon_iff {e next : Expecting} {kind : Token.Kind}
    (h : e.next? kind = some next) : kind = .colon ↔ e = .colon := by
  cases e <;> cases kind <;> simp only [next?,reduceCtorEq] at h
  all_goals decide

end Expecting

/-- In an accepted text a non-terminal is the head of a rule-set just where a
colon follows it. -/
theorem followedBy_colon_iff {front back : List Token} {t last : Token}
    (h : Expecting.after? .head ((front++t::back).map (·.kind)) = some .head)
    (ht : t.kind = .nonTerminal) :
    FollowedBy (front++t::back++[last]) front.length .colon ↔
      (front.map (·.kind)).getLastD .semicolon = .semicolon := by
  rw [List.map_append] at h
  obtain ⟨e,hfront,hback⟩ := Expecting.after?_append_eq_some h
  rw [←Expecting.after?_eq_head_iff (by simp) hfront]
  rw [List.map_cons,ht,Expecting.after?_cons,Option.bind_eq_some_iff] at hback
  obtain ⟨next,hnext,hback⟩ := hback
  cases back with
  | nil =>
    obtain rfl := Option.some.inj hback
    cases e <;> simp [Expecting.next?] at hnext
  | cons u back =>
    rw [List.map_cons,Expecting.after?_cons,Option.bind_eq_some_iff] at hback
    obtain ⟨later,hlater,_⟩ := hback
    have hplace : (front++t::u::back++[last])[front.length+1]? = some u :=
      getElem?_eq_some_iff_split.mpr ⟨front++[t],back++[last],by simp,by simp⟩
    rw [FollowedBy,hplace,←Expecting.next?_eq_colon_iff hnext,
      ←Expecting.kind_eq_colon_iff hlater]
    simp

/-- What a survey holds of the tokens of its text, the first of them being given. -/
structure Survey.Describes (s : Survey) (tokens : List Token) (first : Token) : Prop where
  /-- The kinds lead back to a head. -/
  closed : Expecting.after? .head (tokens.map (·.kind)) = some .head
  /-- Each head is defined where it stands. -/
  definitions : s.registry.definitions = (heads tokens).map Token.definition
  /-- The first lexeme is used, and every non-terminal that is no head. -/
  used : ∀ x, x ∈ s.registry.used ↔
    x = first.lexeme ∨ x ∈ usesBehind .semicolon (tokens.map Token.word)
  /-- All non-terminals are counted. -/
  nonTerminals : s.nonTerminals = tokens.countP (·.kind = .nonTerminal)
  /-- All terminals are counted. -/
  terminals : s.terminals = tokens.countP (·.kind = .terminal)

/-- A survey describes the tokens of its text. -/
theorem describes_of_survey {text : String} {s : Survey} (h : survey text = .ok s) :
    s.Describes (tokens text) (firstToken text) := by
  obtain ⟨p,hp,he,rfl⟩ := run_of_survey h
  have hr := Progress.reads_of_run (begin_behind (firstToken text)) hp
  have hclosed := hr.expecting
  rw [he] at hclosed
  refine ⟨hclosed,hr.definitions,fun x => ?_,?_,?_⟩
  · rw [hr.used]
    simp [Progress.begin,Registry.noteUse,Registry.empty]
  · rw [hr.nonTerminals]
    exact Nat.zero_add _
  · rw [hr.terminals]
    exact Nat.zero_add _

/-- Counting a kind other than the end of the text may leave the end out. -/
theorem countP_allTokens (text : String) {kind : Token.Kind} (h : kind ≠ .endOfInput) :
    (allTokens text).countP (·.kind = kind) = (tokens text).countP (·.kind = kind) := by
  rw [allTokens,List.countP_append,List.countP_singleton]
  simp [h.symm]

/-- A non-terminal among all tokens has some of the other tokens before it and
some behind it. -/
theorem getElem?_allTokens_iff {text : String} {i : Nat} {t : Token}
    (ht : t.kind = .nonTerminal) :
    (allTokens text)[i]? = some t ↔
      ∃ front back, tokens text = front++t::back ∧ front.length = i := by
  rw [←getElem?_eq_some_iff_split,allTokens,List.getElem?_append]
  split
  · rfl
  · next hi =>
    have hnone : (tokens text)[i]? = none := List.getElem?_eq_none (Nat.le_of_not_lt hi)
    rw [hnone]
    constructor
    · intro h
      obtain rfl := List.mem_singleton.mp (List.mem_of_getElem? h)
      simp at ht
    · intro h
      cases h

namespace Survey.Describes

variable {text : String} {s : Survey}

/-- A non-terminal of the text stands behind a semicolon just where a colon follows. -/
theorem followedBy_colon_iff (hd : s.Describes (tokens text) (firstToken text))
    {front back : List Token} {t : Token} (he : tokens text = front++t::back)
    (ht : t.kind = .nonTerminal) : FollowedBy (allTokens text) front.length .colon ↔
      (front.map (·.kind)).getLastD .semicolon = .semicolon := by
  have hclosed := hd.closed
  rw [he] at hclosed
  rw [allTokens,he]
  exact GrammarCensus.followedBy_colon_iff hclosed ht

/-- There are as many definitions as colons, and as many as semicolons. -/
theorem size_eq (hd : s.Describes (tokens text) (firstToken text)) :
    s.registry.size = (tokens text).countP (·.kind = .colon) ∧
      s.registry.size = (tokens text).countP (·.kind = .semicolon) := by
  have hsize : s.registry.size = (heads (tokens text)).length := by
    rw [Registry.size,hd.definitions,List.length_map]
  have hbegin : Expecting.head = .head ↔ Token.Kind.semicolon = .semicolon := by simp
  obtain ⟨hcolon,hsemicolon⟩ := Expecting.length_headsBehind hbegin hd.closed
  simp only [reduceCtorEq,if_false,if_true,Nat.add_zero] at hcolon hsemicolon
  exact ⟨hsize.trans hcolon,hsize.trans hsemicolon⟩

/-- The definitions are those of the non-terminals that a colon follows. -/
theorem position?_iff (hd : s.Describes (tokens text) (firstToken text)) {name : String}
    {position : Position} : s.registry.position? name = some position ↔
      ∃ i t, (allTokens text)[i]? = some t ∧ t.kind = .nonTerminal ∧ t.lexeme = name ∧
        t.position = position ∧ FollowedBy (allTokens text) i .colon := by
  rw [Registry.position?_of_definitions hd.definitions]
  constructor
  · rintro ⟨t,ht,hname,hposition⟩
    obtain ⟨front,back,hsplit,hk,hs⟩ := mem_headsBehind.mp ht
    have hplace := (getElem?_allTokens_iff hk).mpr ⟨front,back,hsplit,rfl⟩
    have hcolon := (hd.followedBy_colon_iff hsplit hk).mpr hs
    exact ⟨front.length,t,hplace,hk,hname,hposition,hcolon⟩
  · rintro ⟨i,t,hi,hk,hname,hposition,hcolon⟩
    obtain ⟨front,back,hsplit,rfl⟩ := (getElem?_allTokens_iff hk).mp hi
    have hs := (hd.followedBy_colon_iff hsplit hk).mp hcolon
    exact ⟨t,mem_headsBehind.mpr ⟨front,back,hsplit,hk,hs⟩,hname,hposition⟩

/-- The uses are that of the first lexeme and those of the non-terminals that no
colon follows. -/
theorem hasUse_iff (hd : s.Describes (tokens text) (firstToken text)) {name : String} :
    s.registry.hasUse name = true ↔
      (∃ t, (allTokens text)[0]? = some t ∧ t.lexeme = name) ∨
      ∃ i t, (allTokens text)[i]? = some t ∧ t.kind = .nonTerminal ∧ t.lexeme = name ∧
        ¬FollowedBy (allTokens text) i .colon := by
  have hfirst : (∃ t, (allTokens text)[0]? = some t ∧ t.lexeme = name) ↔
      name = (firstToken text).lexeme := by
    simp [getElem?_zero_allTokens,eq_comm]
  rw [Registry.hasUse,decide_eq_true_iff,hd.used,hfirst,mem_usesBehind]
  refine or_congr_right ⟨?_,?_⟩
  · rintro ⟨front,t,back,hsplit,hk,hname,hs⟩
    have hplace := (getElem?_allTokens_iff hk).mpr ⟨front,back,hsplit,rfl⟩
    have hcolon := mt (hd.followedBy_colon_iff hsplit hk).mp hs
    exact ⟨front.length,t,hplace,hk,hname,hcolon⟩
  · rintro ⟨i,t,hi,hk,hname,hcolon⟩
    obtain ⟨front,back,hsplit,rfl⟩ := (getElem?_allTokens_iff hk).mp hi
    have hs := mt (hd.followedBy_colon_iff hsplit hk).mpr hcolon
    exact ⟨front,t,back,hsplit,hk,hname,hs⟩

end Survey.Describes

/-- The findings on an accepted text, by its tokens alone: how many tokens there
are of each kind of name, one definition for each colon and for each semicolon,
the definitions of the non-terminals that a colon follows, and the uses of the
first lexeme and of the non-terminals that no colon follows. -/
theorem survey_findings {text : String} {s : Survey} (h : survey text = .ok s) :
    s.nonTerminals = (allTokens text).countP (·.kind = .nonTerminal) ∧
    s.terminals = (allTokens text).countP (·.kind = .terminal) ∧
    s.registry.size = (allTokens text).countP (·.kind = .colon) ∧
    s.registry.size = (allTokens text).countP (·.kind = .semicolon) ∧
    (∀ name position, s.registry.position? name = some position ↔
      ∃ i t, (allTokens text)[i]? = some t ∧ t.kind = .nonTerminal ∧ t.lexeme = name ∧
        t.position = position ∧ FollowedBy (allTokens text) i .colon) ∧
    (∀ name, s.registry.hasUse name = true ↔
      (∃ t, (allTokens text)[0]? = some t ∧ t.lexeme = name) ∨
      ∃ i t, (allTokens text)[i]? = some t ∧ t.kind = .nonTerminal ∧ t.lexeme = name ∧
        ¬FollowedBy (allTokens text) i .colon) := by
  have hd := describes_of_survey h
  obtain ⟨hcolon,hsemicolon⟩ := hd.size_eq
  refine ⟨?_,?_,?_,?_,fun _ _ => hd.position?_iff,fun _ => hd.hasUse_iff⟩
  · rw [hd.nonTerminals,countP_allTokens text (by decide)]
  · rw [hd.terminals,countP_allTokens text (by decide)]
  · rw [hcolon,countP_allTokens text (by decide)]
  · rw [hsemicolon,countP_allTokens text (by decide)]

/-- In two rule-sets that are written out, all names are counted, the second head is
found where it lies, and the start symbol is used. -/
theorem survey_findings_twoRuleSets : ∃ s, survey "s : A n ;\nn : | s ;" = .ok s ∧
    s.nonTerminals = 4 ∧ s.terminals = 1 ∧ s.registry.size = 2 ∧
    s.registry.position? "n" = some ⟨2,1⟩ ∧ s.registry.hasUse "s" = true := by
  obtain ⟨s,h⟩ := (exists_survey_iff "s : A n ;\nn : | s ;").mpr
    ⟨by decide +kernel,by decide +kernel⟩
  obtain ⟨hn,ht,hsize,_,hposition,hused⟩ := survey_findings h
  refine ⟨s,h,?_,?_,?_,?_,?_⟩
  · rw [hn]
    decide +kernel
  · rw [ht]
    decide +kernel
  · rw [hsize]
    decide +kernel
  · have hcolon : FollowedBy (allTokens "s : A n ;\nn : | s ;") 5 .colon :=
      ⟨⟨.colon,":",⟨12,13⟩,⟨2,3⟩⟩,by decide +kernel,rfl⟩
    exact (hposition _ _).mpr
      ⟨5,⟨.nonTerminal,"n",⟨10,11⟩,⟨2,1⟩⟩,by decide +kernel,rfl,rfl,rfl,hcolon⟩
  · exact (hused _).mpr (Or.inl ⟨_,getElem?_zero_allTokens _,by decide +kernel⟩)

end GrammarCensus
