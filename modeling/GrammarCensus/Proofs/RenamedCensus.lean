import GrammarCensus.Analysis
import GrammarCensus.Proofs.Renaming

/-!
# The census of renamed texts

Two texts whose tokens are of the same kinds, the non-terminals of the one being
those of the other under new names. The main statement is that their analyses
differ in nothing but these names and the places of the tokens, whatever the
layout and whatever the lexemes of the other tokens are.
-/

namespace GrammarCensus

open Progress

/-- What a survey finds is renamed along. The uses count the first lexeme, which is a
name only if there is a rule-set. -/
structure Survey.Renamed (f : String → String) (names : Set String) (s s' : Survey) : Prop where
  /-- There are as many definitions. -/
  size : s'.registry.size = s.registry.size
  /-- The defined names get their new names. -/
  defined : s'.registry.defined = s.registry.defined.map f
  /-- The used names get their new names. -/
  used : s.registry.size ≠ 0 → s'.registry.used = s.registry.used.map f
  /-- There are as many occurrences of non-terminals. -/
  nonTerminals : s'.nonTerminals = s.nonTerminals
  /-- There are as many occurrences of terminals. -/
  terminals : s'.terminals = s.terminals
  /-- The defined names are among those that are renamed. -/
  mem_of_defined : ∀ x ∈ s.registry.defined, x ∈ names
  /-- The used names are among those that are renamed. -/
  mem_of_used : s.registry.size ≠ 0 → ∀ x ∈ s.registry.used, x ∈ names

namespace Survey.Describes

variable {f : String → String} {tokens others : List Token} {first : Token} {s : Survey}

/-- The defined names are the lexemes of the heads. -/
theorem defined_eq (hd : s.Describes tokens first) :
    s.registry.defined = .ofList ((heads tokens).map (·.lexeme)) := by
  rw [Registry.defined,hd.definitions,List.map_map]
  rfl

/-- There are as many definitions as heads. -/
theorem size_eq_length (hd : s.Describes tokens first) :
    s.registry.size = (heads tokens).length := by
  rw [Registry.size,hd.definitions,List.length_map]

/-- Where there is a definition the first token is a non-terminal. -/
theorem exists_eq_cons (hd : s.Describes tokens first) (hs : s.registry.size ≠ 0) :
    ∃ t rest, tokens = t::rest ∧ t.kind = .nonTerminal := by
  cases tokens with
  | nil => exact absurd hd.size_eq_length hs
  | cons t rest =>
    have hclosed := hd.closed
    rw [List.map_cons,Expecting.after?_cons,Option.bind_eq_some_iff] at hclosed
    obtain ⟨_,hnext,_⟩ := hclosed
    exact ⟨t,rest,rfl,Expecting.eq_nonTerminal_of_next?_head hnext⟩

/-- A defined name is the lexeme of a non-terminal. -/
theorem mem_nonTerminalNames_of_mem_defined (hd : s.Describes tokens first) {x : String}
    (h : x ∈ s.registry.defined) : x ∈ nonTerminalNames tokens := by
  rw [hd.defined_eq,NameSet.mem_ofList] at h
  exact mem_nonTerminalNames_of_heads h

/-- Where there is a definition, a used name is the lexeme of a non-terminal: the first token
is one too. -/
theorem mem_nonTerminalNames_of_mem_used {last : Token}
    (hd : s.Describes tokens (tokens.headD last)) (hs : s.registry.size ≠ 0) {x : String}
    (h : x ∈ s.registry.used) : x ∈ nonTerminalNames tokens := by
  obtain ⟨t,rest,rfl,hk⟩ := hd.exists_eq_cons hs
  rcases (hd.used x).mp h with rfl|h
  · exact ⟨t,List.mem_cons_self,hk,rfl⟩
  · exact mem_nonTerminalNames_of_uses h

/-- The surveys of renamed tokens are renamed. -/
theorem renamed {s' : Survey} {last last' : Token}
    (hd : s.Describes tokens (tokens.headD last)) (hd' : s'.Describes others (others.headD last'))
    (h : Renames f tokens others) : s.Renamed f (nonTerminalNames tokens) s' := by
  have hheads := heads_renamed h.tokens
  have huses := usesBehind_renamed h.tokens .semicolon
  constructor
  case size =>
    have hlength := congrArg List.length hheads
    simp only [List.length_map] at hlength
    rw [hd.size_eq_length,hd'.size_eq_length,hlength]
  case defined =>
    ext z
    rw [hd'.defined_eq,hheads,hd.defined_eq]
    simp
  case used =>
    -- behind a definition the first lexeme is that of a head, so it has a new name, too
    intro hs
    obtain ⟨t,rest,rfl,hk⟩ := hd.exists_eq_cons hs
    obtain ⟨u,rest',htu,_,rfl⟩ := List.forall₂_cons_left_iff.mp h.tokens
    ext z
    rw [hd'.used,huses,List.headD_cons,htu.lexeme hk,NameSet.mem_map]
    simp only [hd.used,List.headD_cons,List.mem_map]
    constructor
    · rintro (rfl|⟨x,hx,rfl⟩)
      · exact ⟨_,Or.inl rfl,rfl⟩
      · exact ⟨x,Or.inr hx,rfl⟩
    · rintro ⟨x,rfl|hx,rfl⟩
      · exact Or.inl rfl
      · exact Or.inr ⟨x,hx,rfl⟩
  case nonTerminals => rw [hd.nonTerminals,hd'.nonTerminals,countP_renamed h.tokens]
  case terminals => rw [hd.terminals,hd'.terminals,countP_renamed h.tokens]
  case mem_of_defined => exact fun x => hd.mem_nonTerminalNames_of_mem_defined
  case mem_of_used => exact fun hs x => hd.mem_nonTerminalNames_of_mem_used hs

end Survey.Describes

/-- How the analyses of two texts are related where the one is a renaming of the other:
they have the same census, or the same error with the new names, and with the tokens at
the same places. -/
inductive Corresponds (f : String → String) (text other : String) :
    Except AnalysisError Census → Except AnalysisError Census → Prop
  /-- Both are closed, with the same numbers. -/
  | closed (c) : Corresponds f text other (.ok c) (.ok c)
  /-- Neither has a rule-set. -/
  | noRuleSets :
    Corresponds f text other (.error (.notClosed .noRuleSets)) (.error (.notClosed .noRuleSets))
  /-- The undefined names are renamed. -/
  | undefined {names : NameSet} : (∀ x ∈ names, x ∈ nonTerminalNames (tokens text)) →
    Corresponds f text other (.error (.notClosed (.undefined names)))
      (.error (.notClosed (.undefined (names.map f))))
  /-- The unused names are renamed. -/
  | unused {names : NameSet} : (∀ x ∈ names, x ∈ nonTerminalNames (tokens text)) →
    Corresponds f text other (.error (.notClosed (.unused names)))
      (.error (.notClosed (.unused (names.map f))))
  /-- Tokens at one place are unexpected. -/
  | unexpected {k : Nat} {t u : Token} : (allTokens text)[k]? = some t →
    (allTokens other)[k]? = some u →
    Corresponds f text other (.error (.malformed (.unexpected t.position t.lexeme)))
      (.error (.malformed (.unexpected u.position u.lexeme)))
  /-- Heads at one place repeat heads at one place. -/
  | redefined {k j : Nat} {t u first first' : Token} : (allTokens text)[k]? = some t →
    (allTokens other)[k]? = some u → (allTokens text)[j]? = some first →
    (allTokens other)[j]? = some first' →
    Corresponds f text other (.error (.malformed (.redefined t.lexeme t.position first.position)))
      (.error (.malformed (.redefined u.lexeme u.position first'.position)))

section Texts

variable {f : String → String} {text other : String}

/-- Renamed surveys lead to corresponding analyses. -/
theorem corresponds_of_survey {s s' : Survey} (hs : survey text = .ok s)
    (hs' : survey other = .ok s') (hf : Set.InjOn f (nonTerminalNames (tokens text)))
    (h : s.Renamed f (nonTerminalNames (tokens text)) s') :
    Corresponds f text other (census text) (census other) := by
  -- the cases are the checks for closure in their order, and each goes the same way for both
  by_cases hsize : s.registry.size = 0
  · have hsize' : s'.registry.size = 0 := h.size.trans hsize
    rw [census_of_not_closed hs (Survey.census_of_size_eq_zero hsize),
      census_of_not_closed hs' (Survey.census_of_size_eq_zero hsize')]
    exact .noRuleSets
  have hsize' : s'.registry.size ≠ 0 := by rwa [h.size]
  have hused := h.used hsize
  have hmem := h.mem_of_used hsize
  have hundefined := Registry.undefinedNames_renamed hf hmem h.mem_of_defined hused h.defined
  have hunused := Registry.unusedNames_renamed hf hmem h.mem_of_defined hused h.defined
  by_cases hu : s.registry.undefinedNames = .empty
  · have hu' : s'.registry.undefinedNames = .empty := by rw [hundefined,NameSet.map_eq_empty,hu]
    by_cases hn : s.registry.unusedNames = .empty
    · have hn' : s'.registry.unusedNames = .empty := by rw [hunused,NameSet.map_eq_empty,hn]
      rw [census_of_survey hs (Survey.census_of_closed hsize hu hn),
        census_of_survey hs' (Survey.census_of_closed hsize' hu' hn'),h.size,h.nonTerminals,
        h.terminals]
      exact .closed _
    · have hn' : s'.registry.unusedNames ≠ .empty := by rwa [hunused,ne_eq,NameSet.map_eq_empty]
      rw [census_of_not_closed hs (Survey.census_of_unusedNames_ne hsize hu hn),
        census_of_not_closed hs' (Survey.census_of_unusedNames_ne hsize' hu' hn'),hunused]
      exact .unused fun x hx => h.mem_of_defined x (Registry.mem_unusedNames.mp hx).1
  · have hu' : s'.registry.undefinedNames ≠ .empty := by
      rwa [hundefined,ne_eq,NameSet.map_eq_empty]
    rw [census_of_not_closed hs (Survey.census_of_undefinedNames_ne hsize hu),
      census_of_not_closed hs' (Survey.census_of_undefinedNames_ne hsize' hu'),hundefined]
    exact .undefined fun x hx => hmem x (Registry.mem_undefinedNames.mp hx).1

/-- The ends of two texts are renamed along with the tokens. -/
theorem allTokens_renamed (h : Renames f (tokens text) (tokens other)) :
    List.Forall₂ (Token.Renamed f) (allTokens text) (allTokens other) := by
  have hend : (endToken text).Renamed f (endToken other) := ⟨rfl,fun hk => by cases hk⟩
  exact List.rel_append h.tokens (.cons hend .nil)

/-- A text that is accepted is accepted under new names, with a renamed survey. -/
theorem exists_survey_renamed (h : Renames f (tokens text) (tokens other)) {s : Survey}
    (hs : survey text = .ok s) :
    ∃ s', survey other = .ok s' ∧ s.Renamed f (nonTerminalNames (tokens text)) s' := by
  obtain ⟨hkinds,hnodup⟩ := (exists_survey_iff text).mp ⟨s,hs⟩
  rw [←kinds_renamed h.tokens] at hkinds
  obtain ⟨s',hs'⟩ := (exists_survey_iff other).mpr ⟨hkinds,h.nodup_heads hnodup⟩
  exact ⟨s',hs',(describes_of_survey hs).renamed (describes_of_survey hs') h⟩

/-- The names of tokens in front are among those of all tokens. -/
theorem nonTerminalNames_subset {front back : List Token} {t : Token}
    (h : allTokens text = front++t::back) :
    nonTerminalNames front ⊆ nonTerminalNames (tokens text) := by
  rintro x ⟨u,hu,hk,rfl⟩
  refine ⟨u,?_,hk,rfl⟩
  rcases allTokens_eq_append h with ⟨others,ht⟩|⟨rfl,_⟩
  · rw [ht]
    exact List.mem_append_left _ hu
  · exact hu

/-- A token and those in front of it are renamed to a token and those in front of that. -/
theorem exists_split_renamed (h : Renames f (tokens text) (tokens other))
    {front back : List Token} {t : Token} (hsplit : allTokens text = front++t::back) :
    ∃ front' u back', allTokens other = front'++u::back' ∧ front'.length = front.length ∧
      Renames f front front' ∧ t.Renamed f u := by
  have hall := allTokens_renamed h
  have hplace : (allTokens text)[front.length]? = some t :=
    getElem?_eq_some_iff_split.mpr ⟨front,back,hsplit,rfl⟩
  obtain ⟨u,hplace',htu⟩ := exists_getElem?_of_forall₂ hall hplace
  obtain ⟨front',back',hsplit',hlength⟩ := getElem?_eq_some_iff_split.mp hplace'
  have hfront : List.Forall₂ (Token.Renamed f) front front' := by
    have htake := List.forall₂_take front.length hall
    rwa [hsplit,List.take_left,hsplit',←hlength,List.take_left] at htake
  have hinjOn := h.injOn.mono (nonTerminalNames_subset hsplit)
  exact ⟨front',u,back',hsplit',hlength,⟨hinjOn,hfront⟩,htu⟩

end Texts

section Runs

variable {f : String → String} {front front' : List Token} {first first' : Token}
  {p p' : Progress}

/-- Renamed tokens lead to the same state. -/
theorem Renames.exists_run (h : Renames f front front') (hrun : (begin first).run front = .ok p)
    (first' : Token) : ∃ p', (begin first').run front' = .ok p' ∧ p'.expecting = p.expecting := by
  have hkinds : Expecting.after? .head (front'.map (·.kind)) = some p.expecting := by
    rw [kinds_renamed h.tokens]
    exact (reads_of_run (begin_behind first) hrun).expecting
  have hnodup := ((exists_run_begin_iff first front).mp ⟨p,hrun⟩).2
  exact exists_run_begin hkinds (h.nodup_heads hnodup) first'

/-- A name that is defined by a head has its new name defined by the head at the same
place. -/
theorem Renames.exists_headAt (h : Renames f front front')
    (hrun : (begin first).run front = .ok p) (hrun' : (begin first').run front' = .ok p')
    {t u : Token} (htu : t.Renamed f u) (hk : t.kind = .nonTerminal) {position : Position}
    (hposition : p.survey.registry.position? t.lexeme = some position) :
    ∃ j head head', HeadAt front j head ∧ HeadAt front' j head' ∧ head.position = position ∧
      p'.survey.registry.position? u.lexeme = some head'.position := by
  have hdefs : p.survey.registry.definitions = (heads front).map Token.definition :=
    (reads_of_run (begin_behind first) hrun).definitions
  have hdefs' : p'.survey.registry.definitions = (heads front').map Token.definition :=
    (reads_of_run (begin_behind first') hrun').definitions
  obtain ⟨head,hhead,hlexeme,hplace⟩ := (Registry.position?_of_definitions hdefs).mp hposition
  obtain ⟨j,hj⟩ := mem_heads_iff.mp hhead
  obtain ⟨head',hj',hrenamed⟩ := exists_headAt_renamed h.tokens hj
  have hlexeme' : head'.lexeme = u.lexeme := by
    rw [hrenamed.lexeme hj.2.1,hlexeme,htu.lexeme hk]
  have hmem' : head' ∈ heads front' := mem_heads_iff.mpr ⟨j,hj'⟩
  exact ⟨j,head,head',hj,hj',hplace,
    (Registry.position?_of_definitions hdefs').mpr ⟨head',hmem',hlexeme',rfl⟩⟩

end Runs

section Texts

variable {f : String → String} {text other : String}

/-- A head among tokens in front has its place among all tokens. -/
theorem HeadAt.getElem?_allTokens {front back : List Token} {t head : Token} {j : Nat}
    (h : HeadAt front j head) (hsplit : allTokens text = front++t::back) :
    (allTokens text)[j]? = some head := by
  have hlt := (List.getElem?_eq_some_iff.mp h.1).1
  rw [hsplit,List.getElem?_append_left hlt,h.1]

/-- An error at a token comes back, under new names, at the token in its place. -/
theorem corresponds_of_survey_error (h : Renames f (tokens text) (tokens other))
    {e : SyntaxError} (he : survey text = .error e) :
    Corresponds f text other (census text) (census other) := by
  obtain ⟨front,t,back,p,hsplit,hrun,hstep,hend⟩ := exists_split_of_survey_error he
  obtain ⟨front',u,back',hsplit',hlength,hfront,htu⟩ := exists_split_renamed h hsplit
  obtain ⟨p',hrun',hp'⟩ := hfront.exists_run hrun (firstToken other)
  have hend' : u.kind = .endOfInput → p'.expecting ≠ .head := by
    rw [htu.kind,hp']
    exact hend
  have hplace : (allTokens text)[front.length]? = some t :=
    getElem?_eq_some_iff_split.mpr ⟨front,back,hsplit,rfl⟩
  have hplace' : (allTokens other)[front.length]? = some u :=
    getElem?_eq_some_iff_split.mpr ⟨front',back',hsplit',hlength⟩
  rw [census_of_survey_error he]
  -- the token does not fit its state, or it is a head that an earlier head has defined
  rcases step_error hstep with ⟨hn,rfl⟩|⟨position,hhead,hk,hposition,rfl⟩
  · have hn' : p'.expecting.next? u.kind = none := by rw [hp',htu.kind,hn]
    have hstep' := step_of_next?_none hn'
    rw [census_of_survey_error (survey_error_of_split hsplit' hrun' hstep' hend')]
    exact .unexpected hplace hplace'
  · obtain ⟨j,head,head',hj,hj',rfl,hposition'⟩ := hfront.exists_headAt hrun hrun' htu hk hposition
    have hstep' := step_of_defined (hp'.trans hhead) (htu.kind.trans hk) hposition'
    rw [census_of_survey_error (survey_error_of_split hsplit' hrun' hstep' hend')]
    exact .redefined hplace hplace' (hj.getElem?_allTokens hsplit) (hj'.getElem?_allTokens hsplit')

/-- The analyses of a text and of a renaming of it correspond. -/
theorem corresponds (h : Renames f (tokens text) (tokens other)) :
    Corresponds f text other (census text) (census other) := by
  cases hs : survey text with
  | error e => exact corresponds_of_survey_error h hs
  | ok s =>
    obtain ⟨s',hs',hrenamed⟩ := exists_survey_renamed h hs
    exact corresponds_of_survey hs hs' h.injOn hrenamed

end Texts

/-- The analysis of a text finds the token at a place unexpected. -/
def UnexpectedAt (text : String) (k : Nat) : Prop :=
  ∃ t, (allTokens text)[k]? = some t ∧
    census text = .error (.malformed (.unexpected t.position t.lexeme))

/-- The analysis of a text finds that the token at a place defines a name again, which
the one at another place has defined first. -/
def RedefinedAt (text : String) (k j : Nat) : Prop :=
  ∃ t first, (allTokens text)[k]? = some t ∧ (allTokens text)[j]? = some first ∧
    census text = .error (.malformed (.redefined t.lexeme t.position first.position))

/-- There is only one place at which a token is unexpected. -/
theorem unexpectedAt_iff {text : String} {k : Nat} {t : Token} (ht : (allTokens text)[k]? = some t)
    (h : census text = .error (.malformed (.unexpected t.position t.lexeme))) (i : Nat) :
    UnexpectedAt text i ↔ i = k := by
  constructor
  · rintro ⟨u,hu,hcensus⟩
    rw [h] at hcensus
    simp only [Except.error.injEq,AnalysisError.malformed.injEq,SyntaxError.unexpected.injEq]
      at hcensus
    exact eq_of_position_eq hu ht hcensus.1.symm
  · rintro rfl
    exact ⟨t,ht,h⟩

/-- There is only one place at which a name is defined again, and one of its first
definition. -/
theorem redefinedAt_iff {text : String} {k l : Nat} {t first : Token}
    (ht : (allTokens text)[k]? = some t) (hfirst : (allTokens text)[l]? = some first)
    (h : census text = .error (.malformed (.redefined t.lexeme t.position first.position)))
    (i j : Nat) : RedefinedAt text i j ↔ i = k ∧ j = l := by
  constructor
  · rintro ⟨u,v,hu,hv,hcensus⟩
    rw [h] at hcensus
    simp only [Except.error.injEq,AnalysisError.malformed.injEq,SyntaxError.redefined.injEq]
      at hcensus
    exact ⟨eq_of_position_eq hu ht hcensus.2.1.symm,eq_of_position_eq hv hfirst hcensus.2.2.symm⟩
  · rintro ⟨rfl,rfl⟩
    exact ⟨t,first,ht,hfirst,h⟩

/-- A text and a renaming of it have the same census, or both lack a rule-set, or leave
corresponding names undefined or unused, or have the same error at tokens in the same
places. A set of names is only asked for if all of it is renamed, since other names may
become one of the new ones, too. -/
theorem census_renamed {f : String → String} {text other : String}
    (h : Renames f (tokens text) (tokens other)) :
    (∀ c, census text = .ok c ↔ census other = .ok c) ∧
    (census text = .error (.notClosed .noRuleSets) ↔
      census other = .error (.notClosed .noRuleSets)) ∧
    (∀ names, census text = .error (.notClosed (.undefined names)) ↔
      (∀ x ∈ names, x ∈ nonTerminalNames (tokens text)) ∧
        census other = .error (.notClosed (.undefined (names.map f)))) ∧
    (∀ names, census text = .error (.notClosed (.unused names)) ↔
      (∀ x ∈ names, x ∈ nonTerminalNames (tokens text)) ∧
        census other = .error (.notClosed (.unused (names.map f)))) ∧
    (∀ k, UnexpectedAt text k ↔ UnexpectedAt other k) ∧
    ∀ k j, RedefinedAt text k j ↔ RedefinedAt other k j := by
  have hc := corresponds h
  generalize ha : census text = a at hc
  generalize hb : census other = b at hc
  cases hc with
  | closed c => simp [UnexpectedAt,RedefinedAt,ha,hb]
  | noRuleSets => simp [UnexpectedAt,RedefinedAt,ha,hb]
  | undefined hnames =>
    have hiff (olds : NameSet) := NameSet.eq_iff_map_eq (t := olds) h.injOn hnames
    simp [UnexpectedAt,RedefinedAt,ha,hb,hiff]
  | unused hnames =>
    have hiff (olds : NameSet) := NameSet.eq_iff_map_eq (t := olds) h.injOn hnames
    simp [UnexpectedAt,RedefinedAt,ha,hb,hiff]
  | unexpected ht hu =>
    simp only [unexpectedAt_iff ht ha,unexpectedAt_iff hu hb]
    simp [RedefinedAt,ha,hb]
  | redefined ht hu hfirst hfirst' =>
    simp only [redefinedAt_iff ht hfirst ha,redefinedAt_iff hu hfirst' hb]
    simp [UnexpectedAt,ha,hb]

/-- Layout, a comment and another terminal do not matter to which name is undefined. -/
theorem census_renamed_undefined :
    census "s : A m ; // one" = .error (.notClosed (.undefined (.ofList ["m"]))) ∧
    census "s_2:Bb\nm_2;" = .error (.notClosed (.undefined (.ofList ["m_2"]))) := by
  have hlength : (tokens "s : A m ; // one").length = (tokens "s_2:Bb\nm_2;").length := by
    decide +kernel
  have hpairs : ∀ p ∈ (tokens "s : A m ; // one").zip (tokens "s_2:Bb\nm_2;"),
      p.2.kind = p.1.kind ∧ (p.1.kind = .nonTerminal → p.2.lexeme = p.1.lexeme++"_2") := by
    decide +kernel
  have hrenames : Renames (·++"_2") (tokens "s : A m ; // one") (tokens "s_2:Bb\nm_2;") := by
    constructor
    case injOn =>
      intro x _ y _ hxy
      exact (String.append_left_inj "_2").mp hxy
    case tokens =>
      exact List.forall₂_iff_zip.mpr ⟨hlength,fun h => ⟨(hpairs _ h).1,(hpairs _ h).2⟩⟩
  have hcensus : census "s : A m ; // one" = .error (.notClosed (.undefined (.ofList ["m"]))) := by
    decide +kernel
  have hundefined := (census_renamed hrenames).2.2.1 (.ofList ["m"])
  exact ⟨hcensus,(hundefined.mp hcensus).2⟩

end GrammarCensus
