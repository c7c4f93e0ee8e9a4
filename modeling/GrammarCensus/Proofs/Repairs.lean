import GrammarCensus.Analysis
import GrammarCensus.Proofs.Denotation
import GrammarCensus.Proofs.JoinedTexts
import GrammarCensus.Proofs.Printing

/-!
# Repairing a grammar that is not closed

The two diagnostics of the check for closure list names, and a few rule-sets behind the
last line of the text settle each of them. The main statement is that an empty rule-set
for each name that has none leaves nothing undefined, and that one rule-set that uses
itself and all unused names closes the grammar, with the counts that one would expect.
A text with a second one behind it denotes the rule-sets of both, so that only the two
sets of names have to be compared.
-/

namespace GrammarCensus

open Lexicon

/-- Names with one space in front of each. -/
def spacedNames : List String → String
  | [] => ""
  | x::names => " "++x++spacedNames names

/-- A rule-set on one line, with one alternative that has no terminals. -/
def ruleLine (head : String) (names : List String) : String :=
  head++" :"++spacedNames names++" ;"

/-- For each name a rule-set with nothing but an empty alternative, on a line of its own. -/
def emptyRuleSets : List String → String
  | [] => ""
  | x::names => x++" : ;\n"++emptyRuleSets names

namespace Specification

/-- The names of both specifications, one after the other. -/
theorem names_append (g g' : Specification) : names (g++g') = names g++names g' :=
  List.map_append

/-- The names of a kind in the alternatives of both specifications. -/
theorem namesOf_symbols_append (kind : Token.Kind) (g g' : Specification) :
    namesOf kind (alternativeWords (symbols (g++g'))) =
      namesOf kind (alternativeWords (symbols g))++namesOf kind (alternativeWords (symbols g')) := by
  rw [symbols,List.flatMap_append,alternativeWords_append,namesOf_append]
  rfl

/-- The start symbol is that of the first specification, unless it is empty. -/
theorem startName_append {g : Specification} (h : g ≠ []) (g' : Specification) :
    startName (g++g') = startName g := by
  obtain ⟨r,g,rfl⟩ := List.exists_cons_of_ne_nil h
  rfl

/-- Every defined name is a name. -/
theorem isName_of_mem_names {g : Specification} {x : String} (h : x ∈ names g) :
    IsName isLower x.toList := by
  obtain ⟨r,_,rfl⟩ := List.mem_map.mp h
  exact r.head.property

/-- Every use is a name. -/
theorem isName_of_mem_uses {g : Specification} {x : String} (h : x ∈ uses g) :
    IsName isLower x.toList := by
  obtain ⟨w,hw,rfl⟩ := List.mem_map.mp h
  obtain ⟨hmem,hk⟩ := List.mem_filter.mp hw
  obtain ⟨hclass,_⟩ := isLexical_of_mem_alternativeWords hmem
  rwa [of_decide_eq_true hk] at hclass

end Specification

namespace Denotes

variable {text more : String} {g g' : Specification}

/-- A text with a second one behind its last line denotes the rule-sets of both. -/
theorem append (hg : Denotes text g) (hg' : Denotes more g') :
    Denotes (text++"\n"++more) (g++g') := by
  rw [Denotes,tokens_append_newline_below,List.map_append,words_below,hg,hg',
    Specification.words,Specification.words,Specification.words,List.flatMap_append]

/-- The words of a specification with single spaces between them denote it. -/
theorem of_spaced (h : text.toList = written (spaced (Specification.words g)) []) :
    Denotes text g := by
  have hclass : ∀ w ∈ Specification.words g, InClass w.kind w.lexeme.toList :=
    fun w hw => (Specification.isLexical_of_mem_words hw).1
  rw [Denotes,words_tokens h (printed_spaced hclass).legible,map_word_spaced]

end Denotes

/-- A rule-set with one alternative that has no terminals. -/
def RuleSet.listing (head : NameOf isLower) (names : List (NameOf isLower)) : RuleSet :=
  ⟨head,names.map .nonTerminal,[]⟩

/-- Names with a space in front of each and a semicolon behind them are the words of an
alternative and its sign. -/
theorem written_spacedNames (names : List (NameOf isLower)) :
    written ((alternativeWords (names.map .nonTerminal)++otherWords []).map (Placed.mk [' '])) [] =
      (spacedNames (names.map (·.val))++" ;").toList := by
  induction names with
  | nil => rfl
  | cons x names ih =>
    rw [String.toList_append] at ih
    simp only [List.map_cons,spacedNames,String.toList_append,List.append_assoc,←ih]
    rfl

/-- The line of a rule-set denotes it. -/
theorem denotes_ruleLine (head : NameOf isLower) (names : List (NameOf isLower)) :
    Denotes (ruleLine head.val (names.map (·.val))) [.listing head names] := by
  have hwords : Specification.words [RuleSet.listing head names] =
      (RuleSet.listing head names).words := List.append_nil _
  apply Denotes.of_spaced
  rw [ruleLine,String.append_assoc,String.toList_append,←written_spacedNames,hwords,
    String.toList_append,List.append_assoc]
  rfl

example : ruleLine "z" ["z","x","y"] = "z : z x y ;" := by decide +kernel

/-- The empty rule-sets of some names, in their order. -/
theorem denotes_emptyRuleSets (names : List (NameOf isLower)) :
    Denotes (emptyRuleSets (names.map (·.val))) (names.map fun x => .listing x []) := by
  induction names with
  | nil =>
    have hnil : tokens "" = [] := by decide +kernel
    exact congrArg (List.map Token.word) hnil
  | cons x names ih =>
    have hline : emptyRuleSets ((x::names).map (·.val)) =
        ruleLine x.val []++"\n"++emptyRuleSets (names.map (·.val)) := by
      rw [List.map_cons,emptyRuleSets,ruleLine,spacedNames]
      simp only [String.append_assoc]
      rfl
    rw [hline]
    exact (denotes_ruleLine x []).append ih

example : emptyRuleSets ["x","y"] = "x : ;\ny : ;\n" := by decide +kernel

namespace Survey

/-- What a survey has gained when the rule-sets of a specification have been added. -/
structure Gains (s joined : Survey) (g : Specification) : Prop where
  /-- The new heads are defined too. -/
  definedNames : joined.registry.definedNames =
    s.registry.definedNames ∪ (Specification.names g).toFinset
  /-- The non-terminals of the new alternatives are used too, but not the new heads. -/
  usedNames : joined.registry.usedNames =
    s.registry.usedNames ∪ (Specification.uses g).toFinset
  /-- Every new rule-set is a definition. -/
  size : joined.registry.size = s.registry.size+g.length
  /-- The new heads and the non-terminals of the new alternatives are counted. -/
  nonTerminals : joined.nonTerminals =
    s.nonTerminals+(g.length+(Specification.uses g).length)
  /-- The new terminals are counted. -/
  terminals : joined.terminals = s.terminals+(Specification.terminals g).length

end Survey

section Texts

variable {text more : String} {s : Survey} {g : Specification}

/-- Rule-sets with names of their own can be added behind the last line. -/
theorem exists_survey_gains (h : survey text = .ok s) (hsome : s.registry.definedNames ≠ ∅)
    (hg : Denotes more g) (hnodup : (Specification.names g).Nodup)
    (hnew : ∀ x ∈ Specification.names g, x ∉ s.registry.definedNames) :
    ∃ joined, survey (text++"\n"++more) = .ok joined ∧ s.Gains joined g := by
  obtain ⟨g₀,hg₀,_⟩ := Denotes.existsUnique h
  have hsum := hg₀.sumsUp h
  have hboth := hg₀.append hg
  have hnames : (Specification.names (g₀++g)).Nodup := by
    rw [Specification.names_append]
    refine (hg₀.exists_survey_iff.mp ⟨s,h⟩).append hnodup fun x hx hx' => hnew x hx' ?_
    rwa [hsum.definedNames,List.mem_toFinset]
  obtain ⟨joined,hjoined⟩ := hboth.exists_survey_iff.mpr hnames
  have hsum' := hboth.sumsUp hjoined
  have huses : Specification.uses (g₀++g) = Specification.uses g₀++Specification.uses g :=
    Specification.namesOf_symbols_append ..
  have hterminals : Specification.terminals (g₀++g) =
      Specification.terminals g₀++Specification.terminals g :=
    Specification.namesOf_symbols_append ..
  refine ⟨joined,hjoined,?_,?_,?_,?_,?_⟩
  · rw [hsum'.definedNames,Specification.names_append,List.toFinset_append,hsum.definedNames]
  · rw [hsum'.usedNames,Specification.startName_append (hsum.ne_nil hsome),huses,
      List.toFinset_append,hsum.usedNames,Finset.insert_union]
  · rw [hsum'.size,List.length_append,hsum.size]
  · rw [hsum'.nonTerminals,huses,List.length_append,List.length_append,hsum.nonTerminals]
    omega
  · rw [hsum'.terminals,hterminals,List.length_append,hsum.terminals]

/-- Every defined name is a name. -/
theorem isName_of_mem_definedNames (h : survey text = .ok s) {x : String}
    (hx : x ∈ s.registry.definedNames) : IsName isLower x.toList := by
  obtain ⟨g,hg,_⟩ := Denotes.existsUnique h
  rw [(hg.sumsUp h).definedNames,List.mem_toFinset] at hx
  exact Specification.isName_of_mem_names hx

/-- Where some name is defined every used name is a name. -/
theorem isName_of_mem_usedNames (h : survey text = .ok s) (hsome : s.registry.definedNames ≠ ∅)
    {x : String} (hx : x ∈ s.registry.usedNames) : IsName isLower x.toList := by
  obtain ⟨g,hg,_⟩ := Denotes.existsUnique h
  have hsum := hg.sumsUp h
  rw [hsum.usedNames,Finset.mem_insert,List.mem_toFinset] at hx
  rcases hx with rfl|hx
  · exact Specification.isName_of_mem_names
      (Specification.startName_mem_names (hsum.ne_nil hsome))
  · exact Specification.isName_of_mem_uses hx

end Texts

/-- No name is twice in a set. -/
theorem NameSet.nodup_of_perm {names : NameSet} {added : List String}
    (h : added.Perm names.names) : added.Nodup := by
  refine h.nodup_iff.mpr (names.sorted.imp ?_)
  rintro x _ hlt rfl
  exact String.lt_irrefl x hlt

/-- A list of the names of a set has its members. -/
theorem NameSet.toFinset_of_perm {names : NameSet} {added : List String}
    (h : added.Perm names.names) : added.toFinset = names.toFinset :=
  List.toFinset_eq_of_perm _ _ h

/-- Texts that are names are the texts of names. -/
theorem exists_map_val {first : Char → Bool} {texts : List String}
    (h : ∀ x ∈ texts, IsName first x.toList) :
    ∃ names : List (NameOf first), names.map (·.val) = texts :=
  ⟨texts.attachWith _ h,List.attachWith_map_subtype_val h⟩

/-- The names in an alternative without terminals are those that it lists. -/
theorem namesOf_listing (head : NameOf isLower) (names : List (NameOf isLower)) :
    Specification.uses [.listing head names] = names.map (·.val) ∧
      Specification.terminals [.listing head names] = [] := by
  have hsymbols : Specification.symbols [.listing head names] = names.map .nonTerminal := by
    simp [Specification.symbols,RuleSet.symbols,RuleSet.listing]
  rw [Specification.uses,Specification.terminals,hsymbols]
  constructor
  · simp [namesOf,alternativeWords,Symbol.word,List.filter_map,Function.comp_def]
  · simp [namesOf,alternativeWords,Symbol.word]

/-- The rule-sets with an empty alternative define their names and use none. -/
theorem namesOf_emptyRuleSets (names : List (NameOf isLower)) :
    Specification.names (names.map fun x => .listing x []) = names.map (·.val) ∧
      Specification.uses (names.map fun x => .listing x []) = [] ∧
      Specification.terminals (names.map fun x => .listing x []) = [] := by
  have hsymbols : Specification.symbols (names.map fun x => .listing x []) = [] := by
    simp [Specification.symbols,RuleSet.symbols,RuleSet.listing]
  rw [Specification.uses,Specification.terminals,hsymbols]
  exact ⟨List.map_map,rfl,rfl⟩

namespace Survey.Gains

variable {s joined : Survey} {names : NameSet}

/-- With an empty rule-set for each undefined name, only the names that were defined and
not used before are left to report. -/
theorem census_of_undefined {added : List (NameOf isLower)}
    (hgains : s.Gains joined (added.map fun x => .listing x []))
    (hc : s.census = .error (.undefined names)) (hadded : (added.map (·.val)).Perm names.names) :
    (s.registry.unusedNames = .empty → joined.census =
      .ok ⟨s.registry.size+names.names.length,s.nonTerminals+names.names.length,s.terminals⟩) ∧
    (s.registry.unusedNames ≠ .empty →
      joined.census = .error (.unused s.registry.unusedNames)) := by
  obtain ⟨hnames,huses,hterminals⟩ := namesOf_emptyRuleSets added
  obtain ⟨hsome,_,hmembers⟩ := census_eq_undefined_iff.mp hc
  have hlength : added.length = names.names.length := by
    rw [←hadded.length_eq,List.length_map]
  -- the used names are all defined now, and no other ones are
  have hdefined : joined.registry.definedNames =
      s.registry.definedNames ∪ s.registry.usedNames := by
    rw [hgains.definedNames,hnames,NameSet.toFinset_of_perm hadded,hmembers,
      Finset.union_sdiff_self_eq_union]
  have hused : joined.registry.usedNames = s.registry.usedNames := by
    rw [hgains.usedNames,huses,List.toFinset_nil,Finset.union_empty]
  have hne : joined.registry.definedNames ≠ ∅ := by
    rw [hdefined,ne_eq,Finset.union_eq_empty]
    exact fun h => hsome h.1
  have hrest : joined.registry.definedNames \ joined.registry.usedNames =
      s.registry.unusedNames.toFinset := by
    rw [hdefined,hused,Finset.union_sdiff_right,Registry.toFinset_unusedNames]
  have hsubset : joined.registry.usedNames ⊆ joined.registry.definedNames := by
    rw [hdefined,hused]
    exact Finset.subset_union_right
  refine ⟨fun hempty => ?_,fun hnonempty => ?_⟩
  · rw [hempty,NameSet.toFinset_eq_empty.mpr rfl,Finset.sdiff_eq_empty_iff_subset] at hrest
    refine census_eq_closed_iff.mpr ⟨hne,hsubset.antisymm hrest,?_⟩
    rw [Registry.card_definedNames,hgains.size,hgains.nonTerminals,hgains.terminals,huses,
      hterminals,List.length_map,hlength]
    rfl
  · refine census_eq_unused_iff.mpr ⟨hne,hsubset,?_,hrest.symm⟩
    rwa [hrest,ne_eq,NameSet.toFinset_eq_empty]

/-- With a new rule-set that uses itself and all unused names, the grammar is closed. -/
theorem census_of_unused {head : NameOf isLower} {listed : List (NameOf isLower)}
    (hgains : s.Gains joined [.listing head (head::listed)])
    (hc : s.census = .error (.unused names)) (hlisted : (listed.map (·.val)).Perm names.names) :
    joined.census = .ok
      ⟨s.registry.size+1,s.nonTerminals+(2+names.names.length),s.terminals⟩ := by
  obtain ⟨huses,hterminals⟩ := namesOf_listing head (head::listed)
  obtain ⟨_,hsubset,_,hmembers⟩ := census_eq_unused_iff.mp hc
  have hlength : listed.length = names.names.length := by
    rw [←hlisted.length_eq,List.length_map]
  have hdefined : joined.registry.definedNames = insert head.val s.registry.definedNames := by
    rw [hgains.definedNames,Finset.union_comm]
    rfl
  -- what was used, and what was not, together are the defined names
  have hused : joined.registry.usedNames = insert head.val s.registry.definedNames := by
    rw [hgains.usedNames,huses,List.map_cons,List.toFinset_cons,NameSet.toFinset_of_perm hlisted,
      hmembers,Finset.union_insert,Finset.union_sdiff_of_subset hsubset]
  have hsize : joined.registry.size = s.registry.size+1 := hgains.size
  have hnonTerminals : joined.nonTerminals = s.nonTerminals+(2+names.names.length) := by
    rw [hgains.nonTerminals,huses,List.length_map,List.length_singleton,List.length_cons,hlength]
    omega
  have hcount : joined.terminals = s.terminals := by
    rw [hgains.terminals,hterminals]
    rfl
  refine census_eq_closed_iff.mpr ⟨?_,hused.trans hdefined.symm,?_⟩
  · rw [hdefined]
    exact Finset.insert_ne_empty _ _
  · rw [Registry.card_definedNames,hsize,hnonTerminals,hcount]

end Survey.Gains

/-- What the two diagnostics ask for repairs a text. Where names have no rule-set, an
empty one for each of them, in any order, behind the last line leaves the names that were
defined and not used before, the first head counting as used. If there are none of these,
the text has a census with so many more definitions and non-terminals. Where names are
unused, one rule-set with a new name that uses itself and them gives a census with one
more definition and two more non-terminals besides them. -/
theorem census_repaired (text : String) :
    (∀ names, census text = .error (.notClosed (.undefined names)) →
      ∃ s, survey text = .ok s ∧ ∀ added : List String, added.Perm names.names →
        (s.registry.unusedNames = .empty → census (text++"\n"++emptyRuleSets added) =
          .ok ⟨s.registry.size+names.names.length,
            (tokens text).countP (·.kind = .nonTerminal)+names.names.length,s.terminals⟩) ∧
        (s.registry.unusedNames ≠ .empty → census (text++"\n"++emptyRuleSets added) =
          .error (.notClosed (.unused s.registry.unusedNames)))) ∧
    ∀ names, census text = .error (.notClosed (.unused names)) →
      ∃ s, survey text = .ok s ∧ ∀ z : String, IsName isLower z.toList →
        s.registry.hasDefinition z = false → ∀ listed : List String, listed.Perm names.names →
          census (text++"\n"++ruleLine z (z::listed)) =
            .ok ⟨s.registry.size+1,s.nonTerminals+(2+names.names.length),s.terminals⟩ := by
  refine ⟨fun names hnames => ?_,fun names hnames => ?_⟩
  · obtain ⟨s,hs,hcensus⟩ := exists_survey_of_notClosed hnames
    refine ⟨s,hs,fun added hadded => ?_⟩
    obtain ⟨hsome,_,hmembers⟩ := Survey.census_eq_undefined_iff.mp hcensus
    have hmem {x : String} (hx : x ∈ added) :
        x ∈ s.registry.usedNames ∧ x ∉ s.registry.definedNames := by
      rwa [←Finset.mem_sdiff,←hmembers,←NameSet.toFinset_of_perm hadded,List.mem_toFinset]
    obtain ⟨heads,rfl⟩ := exists_map_val fun x hx => isName_of_mem_usedNames hs hsome (hmem hx).1
    obtain ⟨hheads,_⟩ := namesOf_emptyRuleSets heads
    obtain ⟨joined,hjoined,hgains⟩ := exists_survey_gains hs hsome (denotes_emptyRuleSets heads)
      (by rw [hheads]; exact NameSet.nodup_of_perm hadded)
      (by rw [hheads]; exact fun x hx => (hmem hx).2)
    obtain ⟨hclosed,hunused⟩ := hgains.census_of_undefined hcensus hadded
    rw [←(describes_of_survey hs).nonTerminals]
    exact ⟨fun h => census_of_survey hjoined (hclosed h),
      fun h => census_of_not_closed hjoined (hunused h)⟩
  · obtain ⟨s,hs,hcensus⟩ := exists_survey_of_notClosed hnames
    refine ⟨s,hs,fun z hz hnew listed hlisted => ?_⟩
    obtain ⟨hsome,_,_,hmembers⟩ := Survey.census_eq_unused_iff.mp hcensus
    have hmem {x : String} (hx : x ∈ listed) : x ∈ s.registry.definedNames := by
      rw [←List.mem_toFinset,NameSet.toFinset_of_perm hlisted,hmembers] at hx
      exact (Finset.mem_sdiff.mp hx).1
    obtain ⟨members,rfl⟩ := exists_map_val fun x hx => isName_of_mem_definedNames hs (hmem hx)
    have hhead : z ∉ s.registry.definedNames := by
      rw [Registry.mem_definedNames,hnew]
      decide
    obtain ⟨joined,hjoined,hgains⟩ := exists_survey_gains hs hsome
      (denotes_ruleLine ⟨z,hz⟩ (⟨z,hz⟩::members)) (List.nodup_singleton _)
      (List.forall_mem_singleton.mpr hhead)
    exact census_of_survey hjoined (hgains.census_of_unused hcensus hlisted)

/-- Behind a comment that is still open the two names without a rule-set get one. With one
for `x` the name that nothing uses is left. As a use of a new name it is left no longer. -/
theorem census_repaired_openComment :
    census ("s : a b A ; // a b"++"\n"++emptyRuleSets ["b","a"]) = .ok ⟨3,5,1⟩ ∧
      census ("s : x ;\nn : s ;"++"\n"++emptyRuleSets ["x"]) =
        .error (.notClosed (.unused (.ofList ["n"]))) ∧
      census ("s : A ;\nn : s ;"++"\n"++ruleLine "z_1" ["z_1","n"]) = .ok ⟨3,6,1⟩ := by
  refine ⟨?_,?_,?_⟩
  · have hcensus : census "s : a b A ; // a b" =
        .error (.notClosed (.undefined (.ofList ["a","b"]))) := by decide +kernel
    have hsurvey : survey "s : a b A ; // a b" =
        .ok ⟨⟨[⟨"s",⟨1,1⟩⟩],.ofList ["s","a","b"],by decide⟩,3,1⟩ := by decide +kernel
    obtain ⟨s,hs,hrepaired⟩ := (census_repaired "s : a b A ; // a b").1 _ hcensus
    obtain rfl := Except.ok.inj (hsurvey.symm.trans hs)
    have hcount : (tokens "s : a b A ; // a b").countP (·.kind = .nonTerminal) = 3 := by
      decide +kernel
    have hclosed := (hrepaired ["b","a"] (by decide)).1 (by decide)
    rwa [hcount] at hclosed
  · have hcensus : census "s : x ;\nn : s ;" =
        .error (.notClosed (.undefined (.ofList ["x"]))) := by decide +kernel
    have hsurvey : survey "s : x ;\nn : s ;" =
        .ok ⟨⟨[⟨"s",⟨1,1⟩⟩,⟨"n",⟨2,1⟩⟩],.ofList ["s","x"],by decide⟩,4,0⟩ := by decide +kernel
    obtain ⟨s,hs,hrepaired⟩ := (census_repaired "s : x ;\nn : s ;").1 _ hcensus
    obtain rfl := Except.ok.inj (hsurvey.symm.trans hs)
    exact (hrepaired ["x"] (by decide)).2 (by decide)
  · have hcensus : census "s : A ;\nn : s ;" =
        .error (.notClosed (.unused (.ofList ["n"]))) := by decide +kernel
    have hsurvey : survey "s : A ;\nn : s ;" =
        .ok ⟨⟨[⟨"s",⟨1,1⟩⟩,⟨"n",⟨2,1⟩⟩],.ofList ["s"],by decide⟩,3,1⟩ := by decide +kernel
    obtain ⟨s,hs,hrepaired⟩ := (census_repaired "s : A ;\nn : s ;").2 _ hcensus
    obtain rfl := Except.ok.inj (hsurvey.symm.trans hs)
    exact hrepaired "z_1" (by decide +kernel) (by decide) ["n"] (by decide)

end GrammarCensus
