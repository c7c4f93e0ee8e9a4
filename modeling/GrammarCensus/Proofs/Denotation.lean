import GrammarCensus.Proofs.ClosureChecks
import GrammarCensus.Proofs.Findings
import GrammarCensus.Proofs.Legibility
import GrammarCensus.Proofs.Specification

/-!
# The specification that a text denotes

A text denotes the specification whose words are those of its tokens. Each production of
the syntax gives back what it was put down from, so every text that recognition accepts
denotes a specification. Names end where a sign stands, so it denotes no other one. What
a survey holds of a text is then a matter of that specification alone.
-/

namespace GrammarCensus

open Lexicon

/-- The words of a text are those of a specification. -/
def Denotes (text : String) (g : Specification) : Prop :=
  (tokens text).map Token.word = Specification.words g

/-- A kind and a lexeme are the whole of a word. -/
theorem Word.eq_of_lexeme {w : Word} {kind : Token.Kind} (lexeme : String) (hk : w.kind = kind)
    (hl : w.lexeme.toList = lexeme.toList) : w = ⟨kind,lexeme⟩ := by
  obtain ⟨_,_⟩ := w
  rw [String.toList_inj] at hl
  exact congr (congrArg Word.mk hk) hl

namespace Symbol

/-- The word of a symbol is a name. -/
theorem isSymbol_word (s : Symbol) : s.word.IsSymbol := by
  cases s with
  | terminal name => exact Or.inr rfl
  | nonTerminal name => exact Or.inl rfl

/-- A name of its class is the word of a symbol. -/
theorem exists_word_eq {w : Word} (hw : w.IsSymbol) (hclass : InClass w.kind w.lexeme.toList) :
    ∃ s : Symbol, s.word = w := by
  obtain ⟨kind,lexeme⟩ := w
  rcases hw with hk|hk
  · obtain rfl : kind = .nonTerminal := hk
    exact ⟨.nonTerminal ⟨lexeme,hclass⟩,rfl⟩
  · obtain rfl : kind = .terminal := hk
    exact ⟨.terminal ⟨lexeme,hclass⟩,rfl⟩

/-- Different symbols have different words. -/
theorem word_injective : Function.Injective Symbol.word := by
  intro s t h
  cases s with
  | terminal name =>
    cases t with
    | terminal other => rw [Subtype.ext (Word.mk.inj h).2]
    | nonTerminal other => cases (Word.mk.inj h).1
  | nonTerminal name =>
    cases t with
    | terminal other => cases (Word.mk.inj h).1
    | nonTerminal other => rw [Subtype.ext (Word.mk.inj h).2]

end Symbol

section Existence

variable {words : List Word} {kinds : List Token.Kind}

/-- A name goes in front of an alternative. -/
theorem exists_alternativeWords_cons {w : Word} (hw : w.IsSymbol)
    (hclass : InClass w.kind w.lexeme.toList) (h : ∃ symbols, alternativeWords symbols = words) :
    ∃ symbols, alternativeWords symbols = w::words := by
  obtain ⟨s,rfl⟩ := Symbol.exists_word_eq hw hclass
  obtain ⟨symbols,rfl⟩ := h
  exact ⟨s::symbols,rfl⟩

/-- Words with the kinds of an alternative are those of one. -/
theorem exists_alternativeWords (h : IsAlternative kinds) (hk : words.map (·.kind) = kinds)
    (hclass : ∀ w ∈ words, InClass w.kind w.lexeme.toList) :
    ∃ symbols, alternativeWords symbols = words := by
  induction h generalizing words with
  | nothing =>
    obtain rfl := List.map_eq_nil_iff.mp hk
    exact ⟨[],rfl⟩
  | terminal _ ih =>
    obtain ⟨w,words,rfl,hw,hwords⟩ := List.map_eq_cons_iff.mp hk
    obtain ⟨hfirst,hrest⟩ := List.forall_mem_cons.mp hclass
    exact exists_alternativeWords_cons (Or.inr hw) hfirst (ih hwords hrest)
  | nonTerminal _ ih =>
    obtain ⟨w,words,rfl,hw,hwords⟩ := List.map_eq_cons_iff.mp hk
    obtain ⟨hfirst,hrest⟩ := List.forall_mem_cons.mp hclass
    exact exists_alternativeWords_cons (Or.inl hw) hfirst (ih hwords hrest)

/-- Words with the kinds of further alternatives are those of some. -/
theorem exists_otherWords (h : IsAlternatives kinds) (hk : words.map (·.kind) = kinds)
    (hclass : ∀ w ∈ words, InClass w.kind w.lexeme.toList) :
    ∃ others, otherWords others = words := by
  induction h generalizing words with
  | semicolon =>
    obtain ⟨w,_,rfl,hw,hnil⟩ := List.map_eq_cons_iff.mp hk
    obtain rfl := List.map_eq_nil_iff.mp hnil
    have hsign := hclass w List.mem_cons_self
    rw [hw] at hsign
    exact ⟨[],by rw [otherWords,Word.eq_of_lexeme ";" hw hsign]⟩
  | pipe ha _ ih =>
    obtain ⟨w,_,rfl,hw,hwords⟩ := List.map_eq_cons_iff.mp hk
    obtain ⟨first,second,rfl,hfirst,hsecond⟩ := List.map_eq_append_iff.mp hwords
    obtain ⟨hsign,hrest⟩ := List.forall_mem_cons.mp hclass
    obtain ⟨hclass₁,hclass₂⟩ := List.forall_mem_append.mp hrest
    obtain ⟨symbols,rfl⟩ := exists_alternativeWords ha hfirst hclass₁
    obtain ⟨others,rfl⟩ := ih hsecond hclass₂
    rw [hw] at hsign
    exact ⟨symbols::others,by rw [otherWords,Word.eq_of_lexeme "|" hw hsign]⟩

/-- Words with the kinds of a rule-set are those of one. -/
theorem RuleSet.exists_words_eq (h : IsRuleSet kinds) (hk : words.map (·.kind) = kinds)
    (hclass : ∀ w ∈ words, InClass w.kind w.lexeme.toList) : ∃ r : RuleSet, r.words = words := by
  cases h with
  | ruleSet ha ho =>
    obtain ⟨⟨kind,lexeme⟩,_,rfl,hhead,hwords⟩ := List.map_eq_cons_iff.mp hk
    obtain ⟨w,_,rfl,hw,hwords⟩ := List.map_eq_cons_iff.mp hwords
    obtain ⟨first,second,rfl,hfirst,hsecond⟩ := List.map_eq_append_iff.mp hwords
    obtain ⟨hname,hrest⟩ := List.forall_mem_cons.mp hclass
    obtain ⟨hsign,hrest⟩ := List.forall_mem_cons.mp hrest
    obtain ⟨hclass₁,hclass₂⟩ := List.forall_mem_append.mp hrest
    obtain ⟨symbols,rfl⟩ := exists_alternativeWords ha hfirst hclass₁
    obtain ⟨others,rfl⟩ := exists_otherWords ho hsecond hclass₂
    obtain rfl : kind = .nonTerminal := hhead
    rw [hw] at hsign
    exact ⟨⟨⟨lexeme,hname⟩,symbols,others⟩,
      by rw [RuleSet.words,Word.eq_of_lexeme ":" hw hsign]⟩

/-- Words with derivable kinds are those of a specification. -/
theorem Specification.exists_words_eq {starts : List Nat} (h : IsGrammar kinds starts)
    (hk : words.map (·.kind)++[.endOfInput] = kinds)
    (hclass : ∀ w ∈ words, InClass w.kind w.lexeme.toList) :
    ∃ g : Specification, Specification.words g = words := by
  induction h generalizing words with
  | endOfInput =>
    have hnil : words.map (·.kind) = [] := List.append_cancel_right hk
    obtain rfl := List.map_eq_nil_iff.mp hnil
    exact ⟨[],rfl⟩
  | ruleSet hr hg ih =>
    -- the end of the text belongs to the rule-sets behind the first one
    obtain ⟨body,rfl,_⟩ := Expecting.after?_of_isGrammar hg
    rw [←List.append_assoc] at hk
    obtain ⟨first,second,rfl,hfirst,hsecond⟩ :=
      List.map_eq_append_iff.mp (List.append_cancel_right hk)
    obtain ⟨hclass₁,hclass₂⟩ := List.forall_mem_append.mp hclass
    obtain ⟨r,rfl⟩ := RuleSet.exists_words_eq hr hfirst hclass₁
    obtain ⟨g,rfl⟩ := ih (by rw [hsecond]) hclass₂
    exact ⟨r::g,Specification.words_cons r g⟩

end Existence

section Uniqueness

variable {rest rest' : List Word}

/-- An alternative ends where a sign stands. -/
theorem alternativeWords_append_inj {first second : List Symbol} {w v : Word}
    (hw : ¬w.IsSymbol) (hv : ¬v.IsSymbol)
    (h : alternativeWords first++w::rest = alternativeWords second++v::rest') :
    first = second ∧ w::rest = v::rest' := by
  induction first generalizing second with
  | nil =>
    cases second with
    | nil => exact ⟨rfl,h⟩
    | cons t second =>
      have heq : w = t.word := (List.cons.inj h).1
      exact absurd t.isSymbol_word (heq ▸ hw)
  | cons s first ih =>
    cases second with
    | nil =>
      have heq : s.word = v := (List.cons.inj h).1
      exact absurd s.isSymbol_word (heq ▸ hv)
    | cons t second =>
      obtain ⟨hword,htail⟩ := List.cons.inj h
      obtain rfl := Symbol.word_injective hword
      obtain ⟨rfl,hrest⟩ := ih htail
      exact ⟨rfl,hrest⟩

/-- The alternatives of a rule-set end with the semicolon. -/
theorem otherWords_append_inj {first first' : List Symbol} {others others' : List (List Symbol)}
    (h : alternativeWords first++(otherWords others++rest) =
      alternativeWords first'++(otherWords others'++rest')) :
    first = first' ∧ others = others' ∧ rest = rest' := by
  have hpipe : ¬Word.IsSymbol ⟨.pipe,"|"⟩ := by simp [Word.IsSymbol]
  have hsemicolon : ¬Word.IsSymbol ⟨.semicolon,";"⟩ := by simp [Word.IsSymbol]
  induction others generalizing first first' others' with
  | nil =>
    cases others' with
    | nil =>
      obtain ⟨rfl,hrest⟩ := alternativeWords_append_inj hsemicolon hsemicolon h
      exact ⟨rfl,rfl,(List.cons.inj hrest).2⟩
    | cons symbols' others' =>
      obtain ⟨_,hrest⟩ := alternativeWords_append_inj hsemicolon hpipe h
      cases (List.cons.inj hrest).1
  | cons symbols others ih =>
    cases others' with
    | nil =>
      obtain ⟨_,hrest⟩ := alternativeWords_append_inj hpipe hsemicolon h
      cases (List.cons.inj hrest).1
    | cons symbols' others' =>
      simp only [otherWords,List.cons_append,List.append_assoc] at h
      obtain ⟨rfl,hrest⟩ := alternativeWords_append_inj hpipe hpipe h
      obtain ⟨rfl,rfl,rfl⟩ := ih (List.cons.inj hrest).2
      exact ⟨rfl,rfl,rfl⟩

/-- A rule-set in front of other words is given by them. -/
theorem RuleSet.words_append_inj {r r' : RuleSet} (h : r.words++rest = r'.words++rest') :
    r = r' ∧ rest = rest' := by
  obtain ⟨head,first,others⟩ := r
  obtain ⟨head',first',others'⟩ := r'
  simp only [words,List.cons_append,List.append_assoc] at h
  obtain ⟨hhead,htail⟩ := List.cons.inj h
  obtain ⟨rfl,rfl,hrest⟩ := otherWords_append_inj (List.cons.inj htail).2
  obtain rfl := Subtype.ext (Word.mk.inj hhead).2
  exact ⟨rfl,hrest⟩

/-- Different specifications have different words. -/
theorem Specification.words_injective : Function.Injective Specification.words := by
  intro g g' h
  induction g generalizing g' with
  | nil =>
    cases g' with
    | nil => rfl
    | cons r' g' => cases h
  | cons r g ih =>
    cases g' with
    | nil => cases h
    | cons r' g' =>
      rw [words_cons,words_cons] at h
      obtain ⟨rfl,hrest⟩ := RuleSet.words_append_inj h
      rw [ih hrest]

end Uniqueness

/-- The name of the first rule-set. Where there is none the lexeme of the end stands for
it, as it does in recognition. -/
def Specification.startName (g : Specification) : String :=
  (names g).headD Token.endLexeme

/-- The first name has a rule-set. -/
theorem Specification.startName_mem_names {g : Specification} (h : g ≠ []) :
    startName g ∈ names g := by
  obtain ⟨r,g,rfl⟩ := List.exists_cons_of_ne_nil h
  exact List.mem_cons_self

/-- What a survey holds of a specification. -/
structure Survey.SumsUp (s : Survey) (g : Specification) : Prop where
  /-- The heads are defined. -/
  definedNames : s.registry.definedNames = (Specification.names g).toFinset
  /-- The first head is used, and the non-terminals of the alternatives. -/
  usedNames : s.registry.usedNames =
    insert (Specification.startName g) (Specification.uses g).toFinset
  /-- Every rule-set is defined once. -/
  size : s.registry.size = g.length
  /-- The heads are counted, and the non-terminals of the alternatives. -/
  nonTerminals : s.nonTerminals = g.length+(Specification.uses g).length
  /-- The terminals are counted. -/
  terminals : s.terminals = (Specification.terminals g).length

/-- Where a name is defined there is a rule-set. -/
theorem Survey.SumsUp.ne_nil {s : Survey} {g : Specification} (hsum : s.SumsUp g)
    (h : s.registry.definedNames ≠ ∅) : g ≠ [] := by
  rintro rfl
  exact h hsum.definedNames

namespace Denotes

variable {text : String} {g : Specification} {s : Survey}

/-- A text that has a survey denotes one specification and no other. -/
theorem existsUnique (h : survey text = .ok s) : ∃! g, Denotes text g := by
  obtain ⟨starts,hg⟩ := derivable_append_end.mpr (describes_of_survey h).closed
  rw [←kinds_words] at hg
  have hclass : ∀ w ∈ (tokens text).map Token.word, InClass w.kind w.lexeme.toList := by
    intro w hw
    obtain ⟨t,ht,rfl⟩ := List.mem_map.mp hw
    exact inClass_of_mem_tokens ht
  obtain ⟨g,hwords⟩ := Specification.exists_words_eq hg rfl hclass
  refine ⟨g,hwords.symm,fun g' hg' => Specification.words_injective ?_⟩
  exact hg'.symm.trans hwords.symm

/-- The lexeme of the first token is the name of the first rule-set. -/
theorem lexeme_firstToken (hg : Denotes text g) :
    (firstToken text).lexeme = Specification.startName g := by
  cases g with
  | nil =>
    have hnil : tokens text = [] := List.map_eq_nil_iff.mp hg
    rw [firstToken,hnil]
    rfl
  | cons r g =>
    obtain ⟨t,others,htokens,ht,_⟩ := List.map_eq_cons_iff.mp hg
    rw [firstToken,htokens]
    exact (Word.mk.inj ht).2

/-- The text of a specification is accepted when no name is defined twice. -/
theorem exists_survey_iff (hg : Denotes text g) :
    (∃ s, survey text = .ok s) ↔ (Specification.names g).Nodup := by
  have hkinds : Expecting.after? .head ((tokens text).map (·.kind)) = some .head := by
    rw [←kinds_words,hg,Specification.after?_words]
  rw [GrammarCensus.exists_survey_iff,(Specification.heads_of_words hg).1]
  exact and_iff_right hkinds

/-- The survey of a text sums up the specification that it denotes. -/
theorem sumsUp (hg : Denotes text g) (h : survey text = .ok s) : s.SumsUp g := by
  have hd := describes_of_survey h
  have hdefined : s.registry.definitions.map (·.name) = Specification.names g := by
    rw [hd.definitions,List.map_map,←(Specification.heads_of_words hg).1]
    rfl
  have hcount (kind : Token.Kind) : (tokens text).countP (·.kind = kind) =
      (Specification.words g).countP (·.kind = kind) := by
    rw [←hg,List.countP_map]
    rfl
  refine ⟨?_,?_,?_,?_,?_⟩
  · ext x
    rw [Registry.definedNames,NameSet.mem_toFinset,Registry.defined,NameSet.mem_ofList,hdefined,
      List.mem_toFinset]
  · ext x
    rw [Registry.usedNames,NameSet.mem_toFinset,hd.used,hg,Specification.usesBehind_words,
      hg.lexeme_firstToken,Finset.mem_insert,List.mem_toFinset]
  · rw [Registry.size,←List.length_map (·.name),hdefined,Specification.names,List.length_map]
  · rw [hd.nonTerminals,hcount,Specification.countP_nonTerminal]
  · rw [hd.terminals,hcount,Specification.countP_terminal]

end Denotes

end GrammarCensus
