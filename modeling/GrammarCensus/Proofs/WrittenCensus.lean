import Mathlib.Data.List.Chain
import GrammarCensus.Analysis
import GrammarCensus.Proofs.Denotation
import GrammarCensus.Proofs.FirstError

/-!
# The census of a written specification

A specification is written by putting layout between its words, of which there
has to be some only where two names meet. Whatever the specification and however
it is written, the analysis of the text is settled by the specification alone,
apart from the two positions in the report of a repeated definition. These are
the places where the two heads have been put.
-/

namespace GrammarCensus

open Lexicon Progress

/-- A text that is a specification with layout between the words. -/
structure Writing (g : Specification) (text : String) where
  /-- The words and the layout in front of each. -/
  placed : List Placed
  /-- What stands behind the last word. -/
  final : List Char
  /-- The words are those of the specification. -/
  words : placed.map (·.word) = Specification.words g
  /-- The text is what is written that way. -/
  text : text.toList = written placed final
  /-- Layout stands in front of the words. -/
  layout : ∀ p ∈ placed, Layout p.layout
  /-- Layout stands at the end, where the last comment may stay open. -/
  finalLayout : FinalLayout final
  /-- Two names do not touch. -/
  apart : placed.IsChain fun p q => p.word.IsSymbol → q.word.IsSymbol → q.layout ≠ []

/-- Where the head of a rule-set has been put. -/
def Writing.headPosition {g : Specification} {text : String} (w : Writing g text) (i : Nat) :
    Position :=
  placeOf w.placed (Specification.words (g.take i)).length

/-- No character of layout belongs to a name. -/
theorem isNameChar_of_layout {c : Char} (h : isBlank c ∨ c = '/') : isNameChar c = false := by
  rcases h with h|rfl
  · exact isNameChar_of_isBlank h
  · decide

/-- Where a character of a name comes first in a written text, a name does, with
nothing in front of it. -/
theorem isSymbol_of_head_written {placed : List Placed} {final : List Char}
    (hlayout : ∀ p ∈ placed, Layout p.layout) (hfinal : FinalLayout final)
    (hlexical : ∀ p ∈ placed, p.word.IsLexical) {c : Char}
    (hc : (written placed final).head? = some c) (hname : isNameChar c) :
    ∃ q others, placed = q::others ∧ q.layout = [] ∧ q.word.IsSymbol := by
  cases placed with
  | nil =>
    rw [isNameChar_of_layout (hfinal.head hc)] at hname
    cases hname
  | cons q others =>
    obtain ⟨d,rest,hw,_,hsymbol⟩ := (hlexical q List.mem_cons_self).eq_cons
    rw [written] at hc
    cases hq : q.layout with
    | nil =>
      rw [hq,hw] at hc
      obtain rfl : d = c := Option.some.inj hc
      exact ⟨q,others,rfl,hq,hsymbol hname⟩
    | cons e layout =>
      have he : q.layout.head? = some c := by
        rw [hq] at hc ⊢
        exact hc
      rw [isNameChar_of_layout ((hlayout q List.mem_cons_self).head he)] at hname
      cases hname

/-- Lexical words are legible where layout keeps names apart. -/
theorem legible_of_apart {placed : List Placed} {final : List Char}
    (hlayout : ∀ p ∈ placed, Layout p.layout) (hfinal : FinalLayout final)
    (hlexical : ∀ p ∈ placed, p.word.IsLexical)
    (hapart : placed.IsChain fun p q => p.word.IsSymbol → q.word.IsSymbol → q.layout ≠ []) :
    Legible final placed := by
  induction placed with
  | nil => exact hfinal
  | cons p placed ih =>
    have hlayout' : ∀ q ∈ placed, Layout q.layout := fun q hq =>
      hlayout q (List.mem_cons_of_mem p hq)
    have hlexical' : ∀ q ∈ placed, q.word.IsLexical := fun q hq =>
      hlexical q (List.mem_cons_of_mem p hq)
    have hp := hlexical p List.mem_cons_self
    obtain ⟨hnext,htail⟩ := List.isChain_cons.mp hapart
    refine ⟨hlayout p List.mem_cons_self,hp.1,?_,ih hlayout' hlexical' htail⟩
    rintro (⟨hname,c,hc,hn⟩|⟨hslash,_⟩)
    · obtain ⟨q,others,rfl,hq,hqname⟩ := isSymbol_of_head_written hlayout' hfinal hlexical' hc hn
      exact hnext q rfl hname hqname hq
    · obtain ⟨c,rest,hw,hc,_⟩ := hp.eq_cons
      rw [hw] at hslash
      exact hc (List.cons.inj hslash).1

namespace Writing

variable {g : Specification} {text : String}

/-- A specification that is written out is legible. -/
theorem legible (w : Writing g text) : Legible w.final w.placed := by
  refine legible_of_apart w.layout w.finalLayout (fun p hp => ?_) w.apart
  apply Specification.isLexical_of_mem_words (g := g)
  rw [←w.words]
  exact List.mem_map_of_mem hp

/-- The tokens of a written specification are its words. -/
theorem words_tokens (w : Writing g text) :
    (tokens text).map Token.word = Specification.words g := by
  rw [GrammarCensus.words_tokens w.text w.legible,w.words]

/-- The head of a rule-set has the position at which it has been put. -/
theorem position_eq (w : Writing g text) {t : Token} {i : Nat}
    (h : (tokens text)[(Specification.words (g.take i)).length]? = some t) :
    t.position = w.headPosition i :=
  position_of_legible w.text w.legible h

/-- The first name that repeats an earlier one is reported, with the positions of
both heads. -/
theorem survey_of_firstRepeat (w : Writing g text) {name : String} {i j : Nat}
    (h : FirstRepeat (Specification.names g) name i j) :
    survey text = .error (.redefined name (w.headPosition i) (w.headPosition j)) := by
  obtain ⟨t,ht,hhead,hname⟩ := Specification.exists_head_of_words w.words_tokens h.later
  obtain ⟨_,_,_,hk,_⟩ := mem_headsBehind.mp hhead
  obtain ⟨front,back,hsplit,hlength⟩ := getElem?_eq_some_iff_split.mp ht
  have hfront : front.map Token.word = Specification.words (g.take i) := by
    have hwords := w.words_tokens
    rw [hsplit,List.map_append,←Specification.words_take_append g i] at hwords
    exact (List.append_inj hwords (by rw [List.length_map,hlength])).1
  have hclosed : Expecting.after? .head (front.map (·.kind)) = some .head := by
    rw [←kinds_words,hfront,Specification.after?_words]
  have hnodup : ((heads front).map (·.lexeme)).Nodup := by
    rw [(Specification.heads_of_words hfront).1,Specification.names,List.map_take]
    exact h.nodup
  have hearlier : (Specification.names (g.take i))[j]? = some name := by
    rw [Specification.names,List.map_take,List.getElem?_take_of_lt h.lt]
    exact h.earlier
  obtain ⟨u,hu,hmem,hlexeme⟩ := Specification.exists_head_of_words hfront hearlier
  have hu' : (tokens text)[(Specification.words (g.take j)).length]? = some u := by
    rw [List.take_take,Nat.min_eq_left (Nat.le_of_lt h.lt)] at hu
    rw [hsplit,List.getElem?_append_left (List.getElem?_eq_some_iff.mp hu).1,hu]
  rw [survey_redefined hsplit hclosed hnodup hk hmem (hlexeme.trans hname.symm),hname,
    w.position_eq ht,w.position_eq hu']

/-- What the survey of a written specification holds: its names, its uses and that of
the first lexeme, and the numbers of its names. -/
theorem exists_survey_of_nodup (w : Writing g text) (hn : (Specification.names g).Nodup) :
    ∃ s, survey text = .ok s ∧
      (∀ x, s.registry.hasDefinition x = true ↔ x ∈ Specification.names g) ∧
      (∀ x, x ∈ s.registry.used ↔
        x = (firstToken text).lexeme ∨ x ∈ Specification.uses g) ∧
      s.registry.size = g.length ∧ s.nonTerminals = g.length+(Specification.uses g).length ∧
      s.terminals = (Specification.terminals g).length := by
  have hg : Denotes text g := w.words_tokens
  obtain ⟨s,hs⟩ := hg.exists_survey_iff.mpr hn
  have hsum := hg.sumsUp hs
  refine ⟨s,hs,fun x => ?_,fun x => ?_,hsum.size,hsum.nonTerminals,hsum.terminals⟩
  · rw [←Registry.mem_definedNames,hsum.definedNames,List.mem_toFinset]
  · rw [←NameSet.mem_toFinset,←Registry.usedNames,hsum.usedNames,hg.lexeme_firstToken,
      Finset.mem_insert,List.mem_toFinset]

/-- Where no name is repeated the survey finds just the undefined and the unused
names of the specification. -/
theorem exists_survey_of_closed (w : Writing g text) (hg : g ≠ [])
    (hn : (Specification.names g).Nodup) :
    ∃ s, survey text = .ok s ∧
      s.registry.undefinedNames = Specification.undefinedNames g ∧
      s.registry.unusedNames = Specification.unusedNames g ∧
      s.registry.size = g.length ∧ s.nonTerminals = g.length+(Specification.uses g).length ∧
      s.terminals = (Specification.terminals g).length := by
  obtain ⟨s,hs,hdefined,hused,hcounts⟩ := w.exists_survey_of_nodup hn
  have hundefined (x : String) :
      s.registry.hasDefinition x = false ↔ x ∉ Specification.names g := by
    rw [←hdefined,Bool.not_eq_true]
  -- the first name is defined, and counts as used
  obtain ⟨name,others,hnames⟩ : ∃ name others, Specification.names g = name::others := by
    cases g with
    | nil => exact absurd rfl hg
    | cons r g => exact ⟨_,_,rfl⟩
  have hfirst : (firstToken text).lexeme = name := by
    rw [Denotes.lexeme_firstToken w.words_tokens,Specification.startName,hnames]
    rfl
  refine ⟨s,hs,?_,?_,hcounts⟩
  · ext x
    rw [Registry.mem_undefinedNames,hundefined,hused,Specification.undefinedNames,
      NameSet.mem_ofList,List.mem_filter,decide_eq_true_iff,hfirst]
    constructor
    · rintro ⟨rfl|hx,hnot⟩
      · exact absurd (by rw [hnames]; exact List.mem_cons_self) hnot
      · exact ⟨hx,hnot⟩
    · rintro ⟨hx,hnot⟩
      exact ⟨Or.inr hx,hnot⟩
  · ext x
    rw [Registry.mem_unusedNames,Registry.mem_defined,hdefined,Registry.hasUse,
      decide_eq_false_iff_not,hused,Specification.unusedNames,NameSet.mem_ofList,List.mem_filter,
      decide_eq_true_iff,hfirst,hnames,List.mem_cons,List.tail_cons,not_or]
    rw [hnames] at hn
    have hnot := (List.nodup_cons.mp hn).1
    constructor
    · rintro ⟨rfl|hx,hne,hunused⟩
      · exact absurd rfl hne
      · exact ⟨hx,hunused⟩
    · rintro ⟨hx,hunused⟩
      refine ⟨Or.inr hx,?_,hunused⟩
      rintro rfl
      exact hnot hx

end Writing

/-- The analysis of a written specification, whatever the layout. An empty one has
no rule-sets. Otherwise the first repeated name is reported, with the places of
both heads. Otherwise the names without a rule-set are reported, if there are any,
and then the names behind the first one that no alternative uses. Otherwise the
census counts the rule-sets, the heads and uses together, and the terminals. -/
theorem census_of_writing {g : Specification} {text : String} (w : Writing g text) :
    (g = [] → census text = .error (.notClosed .noRuleSets)) ∧
    (¬g.names.Nodup → ∃ name i j, FirstRepeat g.names name i j ∧
      census text =
        .error (.malformed (.redefined name (w.headPosition i) (w.headPosition j)))) ∧
    (g ≠ [] → g.names.Nodup →
      (g.undefinedNames ≠ .empty →
        census text = .error (.notClosed (.undefined g.undefinedNames))) ∧
      (g.undefinedNames = .empty → g.unusedNames ≠ .empty →
        census text = .error (.notClosed (.unused g.unusedNames))) ∧
      (g.undefinedNames = .empty → g.unusedNames = .empty →
        census text = .ok ⟨g.length,g.length+g.uses.length,g.terminals.length⟩)) := by
  refine ⟨?_,?_,?_⟩
  · rintro rfl
    obtain ⟨s,hs,_,_,hsize,_⟩ := w.exists_survey_of_nodup List.nodup_nil
    exact census_of_not_closed hs (Survey.census_of_size_eq_zero hsize)
  · intro hn
    obtain ⟨name,i,j,h⟩ := exists_firstRepeat hn
    exact ⟨name,i,j,h,census_of_survey_error (w.survey_of_firstRepeat h)⟩
  · intro hg hn
    obtain ⟨s,hs,hundefined,hunused,hsize,hnonTerminals,hterminals⟩ :=
      w.exists_survey_of_closed hg hn
    have hsome : s.registry.size ≠ 0 := by
      rw [hsize]
      exact fun h => hg (List.length_eq_zero_iff.mp h)
    rw [←hundefined,←hunused,←hnonTerminals,←hterminals,←hsize]
    refine ⟨fun hu => ?_,fun hu hn => ?_,fun hu hn => ?_⟩
    · exact census_of_not_closed hs (Survey.census_of_undefinedNames_ne hsome hu)
    · exact census_of_not_closed hs (Survey.census_of_unusedNames_ne hsome hu hn)
    · exact census_of_survey hs (Survey.census_of_closed hsome hu hn)

/-- Two rule-sets, one of them with nothing but an empty alternative, with two
comments and no other layout. -/
theorem census_of_writing_twoRuleSets : census "s:A|n;// two\nn:;//" = .ok ⟨2,3,1⟩ := by
  have hline : Layout ['/','/',' ','t','w','o','\n'] :=
    @Layout.comment [' ','t','w','o'] [] (by simp [isCommentChar]) .nothing
  have w : Writing [⟨⟨"s",by decide +kernel⟩,[.terminal ⟨"A",by decide +kernel⟩],
        [[.nonTerminal ⟨"n",by decide +kernel⟩]]⟩,⟨⟨"n",by decide +kernel⟩,[],[]⟩]
      "s:A|n;// two\nn:;//" := {
    placed := [⟨[],.nonTerminal,"s"⟩,⟨[],.colon,":"⟩,⟨[],.terminal,"A"⟩,⟨[],.pipe,"|"⟩,
      ⟨[],.nonTerminal,"n"⟩,⟨[],.semicolon,";"⟩,⟨['/','/',' ','t','w','o','\n'],.nonTerminal,"n"⟩,
      ⟨[],.colon,":"⟩,⟨[],.semicolon,";"⟩]
    final := ['/','/']
    words := rfl
    text := by decide +kernel
    layout := by simp [Layout.nothing,hline]
    finalLayout := .opened .nothing (by simp)
    apart := by simp [Word.IsSymbol] }
  obtain ⟨_,_,hclosed⟩ := census_of_writing w
  exact (hclosed (by simp) (by decide +kernel)).2.2 (by decide +kernel) (by decide +kernel)

end GrammarCensus
