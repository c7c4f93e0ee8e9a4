import Mathlib.Data.Nat.Find
import GrammarCensus.Proofs.FirstError
import GrammarCensus.Proofs.LinesInFront

/-!
# Two specifications in one text

A specification with a second one behind its last line. The main statement is that
all counts are added, that the definitions of the second one come behind those of the
first one, as many lines further down, and that of its names only those in alternatives
become used, since its first head is not the start symbol any more. If a name has a
rule-set in both, the first head of the second one that repeats a name is the error.
-/

namespace GrammarCensus

/-- The token at a place is a non-terminal of an alternative: one that is no head. -/
def UseAt (tokens : List Token) (i : Nat) (t : Token) : Prop :=
  tokens[i]? = some t ∧ t.kind = .nonTerminal ∧ ¬HeadAt tokens i t

/-- The uses in a list are those at its places. -/
theorem mem_usesBehind_iff {tokens : List Token} {x : String} :
    x ∈ usesBehind .semicolon (tokens.map Token.word) ↔
      ∃ i t, UseAt tokens i t ∧ t.lexeme = x := by
  rw [mem_usesBehind]
  constructor
  · rintro ⟨front,t,back,rfl,hk,hx,hs⟩
    have hplace : (front++t::back)[front.length]? = some t :=
      getElem?_eq_some_iff_split.mpr ⟨front,back,rfl,rfl⟩
    refine ⟨front.length,t,⟨hplace,hk,fun hhead => ?_⟩,hx⟩
    obtain ⟨front',back',heq,hlength,_,hs'⟩ := headAt_iff_split.mp hhead
    obtain ⟨rfl,_⟩ := List.append_inj heq hlength.symm
    exact hs hs'
  · rintro ⟨i,t,⟨hplace,hk,hno⟩,hx⟩
    obtain ⟨front,back,rfl,rfl⟩ := getElem?_eq_some_iff_split.mp hplace
    have hs : (front.map (·.kind)).getLastD .semicolon ≠ .semicolon := fun hs =>
      hno (headAt_iff_split.mpr ⟨front,back,rfl,rfl,hk,hs⟩)
    exact ⟨front,t,back,rfl,hk,hx,hs⟩

/-- Where some head has a property there is a first head that has it. -/
theorem exists_first_headAt {tokens : List Token} {property : Token → Prop}
    (h : ∃ t ∈ heads tokens, property t) :
    ∃ i t, HeadAt tokens i t ∧ property t ∧
      ∀ j u, j < i → HeadAt tokens j u → ¬property u := by
  classical
  have hplace : ∃ i t, HeadAt tokens i t ∧ property t := by
    obtain ⟨t,ht,hp⟩ := h
    obtain ⟨i,hi⟩ := mem_heads_iff.mp ht
    exact ⟨i,t,hi,hp⟩
  obtain ⟨t,ht,hp⟩ := Nat.find_spec hplace
  exact ⟨Nat.find hplace,t,ht,hp,fun j u hj hu hpu => Nat.find_min hplace hj ⟨u,hu,hpu⟩⟩

section Moved

variable (bytes lines : Nat)

/-- The heads of moved tokens are the moved heads. -/
theorem headsBehind_below (previous : Token.Kind) (tokens : List Token) :
    headsBehind previous (tokens.map (·.below bytes lines)) =
      (headsBehind previous tokens).map (·.below bytes lines) := by
  induction tokens generalizing previous with
  | nil => rfl
  | cons t tokens ih =>
    have hkind : (t.below bytes lines).kind = t.kind := rfl
    rw [List.map_cons,headsBehind,headsBehind,hkind,ih]
    split <;> rfl

/-- The same definition, some lines further down. -/
def Definition.below (d : Definition) : Definition :=
  ⟨d.name,d.position.below lines⟩

end Moved

namespace Survey.Describes

variable {s s' joined : Survey} {front back : List Token} {first first' : Token}
  {bytes lines : Nat}

/-- The last token of complete rule-sets is a semicolon. -/
theorem getLastD_kinds (hd : s.Describes front first) :
    (front.map (·.kind)).getLastD .semicolon = .semicolon :=
  (Expecting.after?_eq_head_iff (by simp) hd.closed).mp rfl

/-- A name is defined when a head has it. -/
theorem hasDefinition_iff (hd : s.Describes front first) {name : String} :
    s.registry.hasDefinition name = true ↔ ∃ t ∈ heads front, t.lexeme = name := by
  rw [←Registry.mem_defined,Registry.defined,NameSet.mem_ofList,hd.definitions,List.map_map,
    List.mem_map]
  rfl

/-- Where there is a definition there is a token. -/
theorem ne_nil_of_size (hd : s.Describes front first) (h : s.registry.size ≠ 0) :
    front ≠ [] := by
  rintro rfl
  rw [Registry.size,hd.definitions] at h
  exact h rfl

/-- Behind complete rule-sets the heads of moved tokens are the moved heads. -/
theorem heads_append (hd : s.Describes front first) (back : List Token) :
    heads (front++back.map (·.below bytes lines)) =
      heads front++(heads back).map (·.below bytes lines) := by
  rw [heads,headsBehind_append,hd.getLastD_kinds,headsBehind_below,←heads,←heads]

/-- What moved rule-sets add to the findings on those before them: their own findings,
except for the use of their first head. -/
theorem append (hd : s.Describes front first) (hd' : s'.Describes back first')
    (hjoined : joined.Describes (front++back.map (·.below bytes lines)) first) :
    joined.nonTerminals = s.nonTerminals+s'.nonTerminals ∧
    joined.terminals = s.terminals+s'.terminals ∧
    joined.registry.definitions =
      s.registry.definitions++s'.registry.definitions.map (·.below lines) ∧
    ∀ x, x ∈ joined.registry.used ↔
      x ∈ s.registry.used ∨ ∃ i t, UseAt back i t ∧ t.lexeme = x := by
  refine ⟨?_,?_,?_,fun x => ?_⟩
  · rw [hjoined.nonTerminals,List.countP_append,countP_below,hd.nonTerminals,hd'.nonTerminals]
  · rw [hjoined.terminals,List.countP_append,countP_below,hd.terminals,hd'.terminals]
  · rw [hjoined.definitions,hd.heads_append,List.map_append,hd.definitions,hd'.definitions,
      List.map_map,List.map_map]
    rfl
  · have huses := @mem_usesBehind_iff back x
    rw [hjoined.used,List.map_append,usesBehind_append,kinds_words,hd.getLastD_kinds,words_below,
      List.mem_append,huses,hd.used,or_assoc]

end Survey.Describes

section Texts

variable {text more : String} {s s' : Survey}

/-- A text that is not empty of tokens keeps its first one. -/
theorem firstToken_append (h : tokens text ≠ []) :
    firstToken (text++"\n"++more) = firstToken text := by
  obtain ⟨t,others,ht⟩ := List.exists_cons_of_ne_nil h
  rw [firstToken,tokens_append_newline_below,ht,firstToken,ht]
  rfl

/-- Two specifications without a name that both define are accepted as one. -/
theorem exists_survey_append (h : survey text = .ok s) (h' : survey more = .ok s')
    (hdisjoint : ∀ name, s.registry.hasDefinition name = true →
      s'.registry.hasDefinition name = false) :
    ∃ joined, survey (text++"\n"++more) = .ok joined := by
  have hd := describes_of_survey h
  have hd' := describes_of_survey h'
  obtain ⟨_,hnodup⟩ := (exists_survey_iff text).mp ⟨s,h⟩
  obtain ⟨_,hnodup'⟩ := (exists_survey_iff more).mp ⟨s',h'⟩
  refine (exists_survey_iff _).mpr ⟨?_,?_⟩
  · rw [tokens_append_newline_below,List.map_append,kinds_below,
      Expecting.after?_append_of_some hd.closed,hd'.closed]
  · rw [tokens_append_newline_below,hd.heads_append,List.map_append,List.map_map]
    refine List.nodup_append.mpr ⟨hnodup,hnodup',?_⟩
    rintro _ hx y hy rfl
    obtain ⟨t,ht,hname⟩ := List.mem_map.mp hx
    obtain ⟨u,hu,hsame⟩ := List.mem_map.mp hy
    have hdefined := hd.hasDefinition_iff.mpr ⟨t,ht,hname⟩
    have hdefined' := hd'.hasDefinition_iff.mpr ⟨u,hu,hsame⟩
    rw [hdisjoint _ hdefined] at hdefined'
    cases hdefined'

/-- The first head of the second specification with a name that the first one defines is
the error. -/
theorem survey_append_redefined (h : survey text = .ok s) (h' : survey more = .ok s') {i : Nat}
    {t : Token} (ht : HeadAt (tokens more) i t) {first : Position}
    (hfirst : s.registry.position? t.lexeme = some first)
    (hbefore : ∀ j u, j < i → HeadAt (tokens more) j u →
      s.registry.hasDefinition u.lexeme = false) :
    survey (text++"\n"++more) =
      .error (.redefined t.lexeme (t.position.below (lineCount text)) first) := by
  have hd := describes_of_survey h
  obtain ⟨_,hnodup⟩ := (exists_survey_iff text).mp ⟨s,h⟩
  obtain ⟨hclosed',hnodup'⟩ := (exists_survey_iff more).mp ⟨s',h'⟩
  obtain ⟨front,back,hsplit,rfl,hk,hs⟩ := headAt_iff_split.mp ht
  obtain ⟨u,hu,hlexeme,rfl⟩ := (Registry.position?_of_definitions hd.definitions).mp hfirst
  -- the tokens before the head lead to a head, and have heads with different names
  rw [hsplit,List.map_append] at hclosed'
  obtain ⟨middle,hmiddle,_⟩ := Expecting.after?_append_eq_some hclosed'
  have hhead : middle = .head := (Expecting.after?_eq_head_iff (by simp) hmiddle).mpr hs
  rw [hsplit,heads,headsBehind_append,List.map_append] at hnodup'
  have hnodupFront := (List.nodup_append.mp hnodup').1
  have hapart : ∀ v ∈ heads front, s.registry.hasDefinition v.lexeme = false := by
    intro v hv
    obtain ⟨j,hj⟩ := mem_heads_iff.mp hv
    have hlt : j < front.length := (List.getElem?_eq_some_iff.mp hj.1).1
    refine hbefore j v hlt ?_
    rw [hsplit]
    exact (headAt_append_left hlt).mpr hj
  generalize hbytes : byteLength text.toList+1 = bytes
  have hjoined : tokens (text++"\n"++more) =
      (tokens text++front.map (·.below bytes (lineCount text)))++
        t.below bytes (lineCount text)::back.map (·.below bytes (lineCount text)) := by
    rw [tokens_append_newline_below,hbytes,hsplit,List.map_append,List.map_cons,
      List.append_assoc]
  refine survey_redefined hjoined ?_ ?_ hk ?_ hlexeme
  · rw [List.map_append,kinds_below,Expecting.after?_append_of_some hd.closed,hmiddle,hhead]
  · rw [hd.heads_append,List.map_append,List.map_map]
    refine List.nodup_append.mpr ⟨hnodup,hnodupFront,?_⟩
    rintro _ hx y hy rfl
    obtain ⟨v,hv,hname⟩ := List.mem_map.mp hx
    obtain ⟨w,hw,hsame⟩ := List.mem_map.mp hy
    have hdefined := hd.hasDefinition_iff.mpr ⟨v,hv,hname⟩
    have hnot := hapart w hw
    have hlexemes : w.lexeme = v.lexeme := hsame.trans hname.symm
    rw [hlexemes,hname,hdefined] at hnot
    cases hnot
  · rw [hd.heads_append]
    exact List.mem_append_left _ hu

end Texts

/-- A specification with at least one rule-set and a second one behind its last line. If
no name is defined in both, the counts are added, the definitions of the second one come
behind those of the first one, that many lines further down, and of the second one just
the non-terminals of alternatives become used. Otherwise the first head of the second one
that the first one defines is the error, in its place further down. -/
theorem survey_append_newline {text more : String} {s s' : Survey} (h : survey text = .ok s)
    (h' : survey more = .ok s') (hsize : s.registry.size ≠ 0) :
    ((∀ name, s.registry.hasDefinition name = true → s'.registry.hasDefinition name = false) →
      ∃ joined, survey (text++"\n"++more) = .ok joined ∧
        joined.nonTerminals = s.nonTerminals+s'.nonTerminals ∧
        joined.terminals = s.terminals+s'.terminals ∧
        joined.registry.definitions =
          s.registry.definitions++s'.registry.definitions.map (·.below (lineCount text)) ∧
        ∀ name, joined.registry.hasUse name = true ↔ s.registry.hasUse name = true ∨
          ∃ i t, UseAt (tokens more) i t ∧ t.lexeme = name) ∧
    ∀ name, s.registry.hasDefinition name = true → s'.registry.hasDefinition name = true →
      ∃ i t first, HeadAt (tokens more) i t ∧ s.registry.position? t.lexeme = some first ∧
        (∀ j u, j < i → HeadAt (tokens more) j u →
          s.registry.hasDefinition u.lexeme = false) ∧
        survey (text++"\n"++more) =
          .error (.redefined t.lexeme (t.position.below (lineCount text)) first) := by
  have hd := describes_of_survey h
  have hd' := describes_of_survey h'
  refine ⟨fun hdisjoint => ?_,fun name hname hname' => ?_⟩
  · obtain ⟨joined,hjoined⟩ := exists_survey_append h h' hdisjoint
    have hdescribes := describes_of_survey hjoined
    rw [firstToken_append (hd.ne_nil_of_size hsize),tokens_append_newline_below] at hdescribes
    obtain ⟨hnonTerminals,hterminals,hdefinitions,hused⟩ := hd.append hd' hdescribes
    refine ⟨joined,hjoined,hnonTerminals,hterminals,hdefinitions,fun name => ?_⟩
    rw [Registry.hasUse,Registry.hasUse,decide_eq_true_iff,decide_eq_true_iff]
    exact hused name
  · obtain ⟨u,hu,hlexeme⟩ := hd'.hasDefinition_iff.mp hname'
    have hclash : ∃ u ∈ heads (tokens more), s.registry.hasDefinition u.lexeme = true :=
      ⟨u,hu,by rw [hlexeme,hname]⟩
    obtain ⟨i,t,ht,hdefined,hbefore⟩ := exists_first_headAt hclash
    obtain ⟨first,hfirst⟩ := Option.isSome_iff_exists.mp hdefined
    have hearlier : ∀ j u, j < i → HeadAt (tokens more) j u →
        s.registry.hasDefinition u.lexeme = false := by
      intro j u hj hu
      rw [←Bool.not_eq_true]
      exact hbefore j u hj hu
    exact ⟨i,t,first,ht,hfirst,hearlier,survey_append_redefined h h' ht hfirst hearlier⟩

/-- A rule-set for the name that the first specification leaves open joins it one line
further down. Behind one that both define, the first repeated head is the error. -/
theorem survey_append_newline_twoTexts :
    (∃ joined, survey ("s : A n ;"++"\n"++"n : | n ;") = .ok joined ∧
      joined.nonTerminals = 4 ∧ joined.terminals = 1 ∧
      joined.registry.definitions = [⟨"s",⟨1,1⟩⟩,⟨"n",⟨2,1⟩⟩]) ∧
    ∃ i t, HeadAt (tokens "n : ;\ns : B ;") i t ∧
      survey ("s : A n ;"++"\n"++"n : ;\ns : B ;") =
        .error (.redefined t.lexeme (t.position.below 1) ⟨1,1⟩) := by
  have h : survey "s : A n ;" =
      .ok ⟨⟨[⟨"s",⟨1,1⟩⟩],.ofList ["s","n"],by decide⟩,2,1⟩ := by decide +kernel
  have hdisjoint : survey "n : | n ;" = .ok ⟨⟨[⟨"n",⟨1,1⟩⟩],.ofList ["n"],by decide⟩,2,0⟩ := by
    decide +kernel
  have hclash : survey "n : ;\ns : B ;" =
      .ok ⟨⟨[⟨"n",⟨1,1⟩⟩,⟨"s",⟨2,1⟩⟩],.ofList ["n"],by decide⟩,2,1⟩ := by decide +kernel
  constructor
  · have hapart : ∀ name, Registry.hasDefinition ⟨[⟨"s",⟨1,1⟩⟩],.ofList ["s","n"],by decide⟩ name =
        true → Registry.hasDefinition ⟨[⟨"n",⟨1,1⟩⟩],.ofList ["n"],by decide⟩ name = false := by
      simp [Registry.hasDefinition,Registry.position?]
    obtain ⟨joined,hjoined,hnonTerminals,hterminals,hdefinitions,_⟩ :=
      (survey_append_newline h hdisjoint (by decide)).1 hapart
    exact ⟨joined,hjoined,hnonTerminals,hterminals,hdefinitions⟩
  · obtain ⟨i,t,first,ht,hfirst,_,herror⟩ :=
      (survey_append_newline h hclash (by decide)).2 "s" (by decide) (by decide)
    obtain ⟨_,rfl⟩ : "s" = t.lexeme ∧ ⟨1,1⟩ = first := by
      simpa [Registry.position?] using hfirst
    exact ⟨i,t,ht,herror⟩

end GrammarCensus
