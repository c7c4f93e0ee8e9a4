import Mathlib.Data.List.Perm.Basic
import GrammarCensus.Analysis
import GrammarCensus.Proofs.Denotation

/-!
# Specifications up to order

Two specifications have the same rule-sets up to order when these can be rearranged, the
alternatives within each of them, and the symbols within each alternative. The main
statement is that the analysis depends on none of these orders, but only on which name is
the first one, and that undefined names do not even depend on that.
-/

namespace GrammarCensus

open Lexicon

/-- Two lists have related entries after the first one has been rearranged. -/
def UpToOrder {α : Type} (related : α → α → Prop) (entries others : List α) : Prop :=
  ∃ between, entries.Perm between ∧ List.Forall₂ related between others

namespace UpToOrder

variable {α β : Type} {related : α → α → Prop} {entries others : List α}

/-- What related entries contribute up to order, the lists contribute up to order. -/
theorem flatMap_perm (h : UpToOrder related entries others) {f : α → List β}
    (hf : ∀ x y, related x y → (f x).Perm (f y)) :
    (entries.flatMap f).Perm (others.flatMap f) := by
  obtain ⟨between,hperm,hrelated⟩ := h
  have hparts : List.Forall₂ List.Perm (between.map f) (others.map f) := by
    rw [List.forall₂_map_left_iff,List.forall₂_map_right_iff]
    exact hrelated.imp hf
  have hbetween : (between.flatMap f).Perm (others.flatMap f) := by
    rw [List.flatMap_def,List.flatMap_def]
    exact List.Perm.flatten_congr hparts
  exact (hperm.flatMap_right f).trans hbetween

/-- What related entries have in common, the lists have in common up to order. -/
theorem map_perm (h : UpToOrder related entries others) {f : α → β}
    (hf : ∀ x y, related x y → f x = f y) : (entries.map f).Perm (others.map f) := by
  rw [List.map_eq_flatMap,List.map_eq_flatMap]
  refine h.flatMap_perm fun x y hxy => ?_
  rw [hf x y hxy]

end UpToOrder

/-- Rule-sets for the same name, with the same alternatives up to their order and up to
the order of the symbols in each. -/
structure RuleSet.Reorders (r r' : RuleSet) : Prop where
  /-- The name is the same. -/
  head : r.head = r'.head
  /-- The alternatives are the same up to order. -/
  alternatives : UpToOrder List.Perm r.alternatives r'.alternatives

/-- A rule-set as it is. -/
@[refl] theorem RuleSet.Reorders.refl (r : RuleSet) : r.Reorders r :=
  ⟨rfl,_,.refl _,List.forall₂_same.mpr fun _ _ => .refl _⟩

/-- The symbols of reordered alternatives are the same up to order. -/
theorem RuleSet.Reorders.symbols_perm {r r' : RuleSet} (h : r.Reorders r') :
    r.symbols.Perm r'.symbols := by
  rw [symbols_eq_flatten,symbols_eq_flatten,←List.flatMap_id,←List.flatMap_id]
  exact h.alternatives.flatMap_perm fun _ _ => id

/-- The same rule-sets up to order. -/
def Specification.Reorders (g g' : Specification) : Prop :=
  UpToOrder RuleSet.Reorders g g'

namespace Specification.Reorders

variable {g g' : Specification}

/-- The same names are defined. -/
theorem names_perm (h : g.Reorders g') : (names g).Perm (names g') :=
  UpToOrder.map_perm h fun _ _ hr => congrArg Subtype.val hr.head

/-- The names of a kind occur the same number of times. -/
theorem namesOf_perm (h : g.Reorders g') (kind : Token.Kind) :
    (namesOf kind (alternativeWords (symbols g))).Perm
      (namesOf kind (alternativeWords (symbols g'))) := by
  have hsymbols : (symbols g).Perm (symbols g') :=
    UpToOrder.flatMap_perm h fun _ _ hr => hr.symbols_perm
  exact ((hsymbols.map _).filter _).map _

/-- There are as many rule-sets. -/
theorem length_eq (h : g.Reorders g') : g.length = g'.length := by
  have hnames := h.names_perm.length_eq
  rwa [names,names,List.length_map,List.length_map] at hnames

end Specification.Reorders

section Surveys

variable {g g' : Specification} {s s' : Survey}

/-- The same names are defined, whatever comes first. -/
theorem Survey.SumsUp.definedNames_eq (hs : s.SumsUp g) (hs' : s'.SumsUp g')
    (h : g.Reorders g') : s'.registry.definedNames = s.registry.definedNames := by
  rw [hs.definedNames,hs'.definedNames,List.toFinset_eq_of_perm _ _ h.names_perm]

/-- With the same name in front the analysis has the same outcome. -/
theorem Survey.SumsUp.census_eq (hs : s.SumsUp g) (hs' : s'.SumsUp g') (h : g.Reorders g')
    (hfirst : Specification.startName g = Specification.startName g') : s'.census = s.census := by
  have huses : (Specification.uses g).Perm (Specification.uses g') := h.namesOf_perm .nonTerminal
  have hterminals : (Specification.terminals g).Perm (Specification.terminals g') :=
    h.namesOf_perm .terminal
  refine Survey.census_congr (hs.definedNames_eq hs' h) ?_ ?_ ?_
  · rw [hs.usedNames,hs'.usedNames,hfirst,List.toFinset_eq_of_perm _ _ huses]
  · rw [hs.nonTerminals,hs'.nonTerminals,h.length_eq,huses.length_eq]
  · rw [hs.terminals,hs'.terminals,hterminals.length_eq]

/-- The first name is no undefined one, since it has a rule-set. -/
theorem Survey.SumsUp.usedNames_sdiff (hs : s.SumsUp g) (hsome : s.registry.definedNames ≠ ∅) :
    s.registry.usedNames \ s.registry.definedNames =
      (Specification.uses g).toFinset \ s.registry.definedNames := by
  have hstart : Specification.startName g ∈ s.registry.definedNames := by
    rw [hs.definedNames,List.mem_toFinset]
    exact Specification.startName_mem_names (hs.ne_nil hsome)
  rw [hs.usedNames,Finset.insert_sdiff_of_mem _ hstart]

/-- Whatever name comes first, the same names are undefined. -/
theorem Survey.SumsUp.census_undefined_iff (hs : s.SumsUp g) (hs' : s'.SumsUp g')
    (h : g.Reorders g') (names : NameSet) :
    s'.census = .error (.undefined names) ↔ s.census = .error (.undefined names) := by
  have hdefined := hs.definedNames_eq hs' h
  have huses : (Specification.uses g').toFinset = (Specification.uses g).toFinset :=
    (List.toFinset_eq_of_perm _ _ (h.namesOf_perm .nonTerminal)).symm
  rw [Survey.census_eq_undefined_iff,Survey.census_eq_undefined_iff,hdefined]
  refine and_congr_right fun hsome => ?_
  have hsome' : s'.registry.definedNames ≠ ∅ := by rwa [hdefined]
  rw [hs.usedNames_sdiff hsome,←hdefined,hs'.usedNames_sdiff hsome',huses]

end Surveys

/-- Two accepted texts whose rule-sets are the same up to order. If the same name comes
first in both, the analysis has the same outcome. Whatever names come first, the same
names are reported as undefined, if any are. -/
theorem census_reordered {text other : String} {s s' : Survey} (h : survey text = .ok s)
    (h' : survey other = .ok s') :
    (∃! g, Denotes text g) ∧ (∃! g', Denotes other g') ∧
      ∀ g g', Denotes text g → Denotes other g' → g.Reorders g' →
        (g.names.head? = g'.names.head? → census other = census text) ∧
        ∀ names, census other = .error (.notClosed (.undefined names)) ↔
          census text = .error (.notClosed (.undefined names)) := by
  refine ⟨Denotes.existsUnique h,Denotes.existsUnique h',fun g g' hg hg' hr => ⟨?_,?_⟩⟩
  · intro hfirst
    have hstart : Specification.startName g = Specification.startName g' := by
      rw [Specification.startName,Specification.startName,List.headD_eq_head?_getD,hfirst,
        List.headD_eq_head?_getD]
    have hcensus := (hg.sumsUp h).census_eq (hg'.sumsUp h') hr hstart
    simp only [census,h,h',hcensus]
  · intro names
    rw [census_eq_notClosed_iff h,census_eq_notClosed_iff h']
    exact (hg.sumsUp h).census_undefined_iff (hg'.sumsUp h') hr names

/-- Behind a first rule-set with its alternatives and the symbols of one of them exchanged,
the other two are exchanged. Where the first one of two rule-sets goes to the end, the
other name is the start symbol, and what is undefined stays so. -/
theorem census_reordered_exchanged :
    census "s : x | A n ; // n\nx : ;\nn : s ;" = .ok ⟨3,6,1⟩ ∧
      census "n : s ;\ns : x ;" = .error (.notClosed (.undefined (.ofList ["x"]))) := by
  obtain ⟨s,hs⟩ : ∃ s : NameOf isLower, s.val = "s" := ⟨⟨"s",by decide +kernel⟩,rfl⟩
  obtain ⟨n,hn⟩ : ∃ n : NameOf isLower, n.val = "n" := ⟨⟨"n",by decide +kernel⟩,rfl⟩
  obtain ⟨x,hx⟩ : ∃ x : NameOf isLower, x.val = "x" := ⟨⟨"x",by decide +kernel⟩,rfl⟩
  obtain ⟨a,ha⟩ : ∃ a : NameOf isUpper, a.val = "A" := ⟨⟨"A",by decide +kernel⟩,rfl⟩
  constructor
  · have hg : Denotes "s : n A | x ;\nn : s ;\nx : ;" [⟨s,[.nonTerminal n,.terminal a],
        [[.nonTerminal x]]⟩,⟨n,[.nonTerminal s],[]⟩,⟨x,[],[]⟩] := by
      simp only [Denotes,Specification.words,List.flatMap_cons,List.flatMap_nil,RuleSet.words,
        alternativeWords,otherWords,List.map_cons,List.map_nil,Symbol.word,hs,hn,hx,ha]
      decide +kernel
    have hg' : Denotes "s : x | A n ; // n\nx : ;\nn : s ;" [⟨s,[.nonTerminal x],
        [[.terminal a,.nonTerminal n]]⟩,⟨x,[],[]⟩,⟨n,[.nonTerminal s],[]⟩] := by
      simp only [Denotes,Specification.words,List.flatMap_cons,List.flatMap_nil,RuleSet.words,
        alternativeWords,otherWords,List.map_cons,List.map_nil,Symbol.word,hs,hn,hx,ha]
      decide +kernel
    have hr : Specification.Reorders [⟨s,[.nonTerminal n,.terminal a],[[.nonTerminal x]]⟩,
        ⟨n,[.nonTerminal s],[]⟩,⟨x,[],[]⟩] [⟨s,[.nonTerminal x],[[.terminal a,.nonTerminal n]]⟩,
        ⟨x,[],[]⟩,⟨n,[.nonTerminal s],[]⟩] := by
      refine ⟨_,.cons _ (.swap _ _ _),.cons ⟨rfl,_,.swap _ _ _,?_⟩
        (.cons (.refl _) (.cons (.refl _) .nil))⟩
      exact .cons (.refl _) (.cons (.swap _ _ _) .nil)
    obtain ⟨_,h⟩ := hg.exists_survey_iff.mpr (by simp [Specification.names,hs,hn,hx])
    obtain ⟨_,h'⟩ := hg'.exists_survey_iff.mpr (by simp [Specification.names,hs,hn,hx])
    obtain ⟨_,_,hsameOutcome⟩ := census_reordered h h'
    have hcensus : census "s : n A | x ;\nn : s ;\nx : ;" = .ok ⟨3,6,1⟩ := by decide +kernel
    rw [(hsameOutcome _ _ hg hg' hr).1 rfl,hcensus]
  · have hg : Denotes "s : x ;\nn : s ;" [⟨s,[.nonTerminal x],[]⟩,⟨n,[.nonTerminal s],[]⟩] := by
      simp only [Denotes,Specification.words,List.flatMap_cons,List.flatMap_nil,RuleSet.words,
        alternativeWords,otherWords,List.map_cons,List.map_nil,Symbol.word,hs,hn,hx]
      decide +kernel
    have hg' : Denotes "n : s ;\ns : x ;" [⟨n,[.nonTerminal s],[]⟩,⟨s,[.nonTerminal x],[]⟩] := by
      simp only [Denotes,Specification.words,List.flatMap_cons,List.flatMap_nil,RuleSet.words,
        alternativeWords,otherWords,List.map_cons,List.map_nil,Symbol.word,hs,hn,hx]
      decide +kernel
    have hr : Specification.Reorders [⟨s,[.nonTerminal x],[]⟩,⟨n,[.nonTerminal s],[]⟩]
        [⟨n,[.nonTerminal s],[]⟩,⟨s,[.nonTerminal x],[]⟩] :=
      ⟨_,.swap _ _ _,.cons (.refl _) (.cons (.refl _) .nil)⟩
    obtain ⟨_,h⟩ := hg.exists_survey_iff.mpr (by simp [Specification.names,hs,hn])
    obtain ⟨_,h'⟩ := hg'.exists_survey_iff.mpr (by simp [Specification.names,hs,hn])
    obtain ⟨_,_,hsameOutcome⟩ := census_reordered h h'
    refine ((hsameOutcome _ _ hg hg' hr).2 _).mpr ?_
    decide +kernel

end GrammarCensus
