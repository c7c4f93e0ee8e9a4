import Mathlib.Data.List.Induction
import Mathlib.Data.List.Nodup
import GrammarCensus.Proofs.Following

/-!
# Specifications

A specification as what it means and not as a text: a list of rule-sets, each
with the name that it defines and one or more alternatives, which are sequences
of named symbols. Its words are put down here in their order. Recognition finds
in words that are put down in this way what the specification itself says: its
names as heads, its uses as the other non-terminals, and as many names of either
kind.
-/

namespace GrammarCensus

open Lexicon

/-- A text that is a name with a first character of the given class. -/
def NameOf (first : Char → Bool) : Type :=
  { text : String // IsName first text.toList }

/-- A name that occurs in an alternative. -/
inductive Symbol
  /-- A terminal. -/
  | terminal (name : NameOf isUpper)
  /-- A non-terminal. -/
  | nonTerminal (name : NameOf isLower)

/-- The word of a symbol. -/
def Symbol.word : Symbol → Word
  | .terminal name => ⟨.terminal,name.val⟩
  | .nonTerminal name => ⟨.nonTerminal,name.val⟩

/-- The names of one kind among words, in their order. -/
def namesOf (kind : Token.Kind) (words : List Word) : List String :=
  (words.filter (·.kind = kind)).map (·.lexeme)

/-- The words of an alternative. -/
def alternativeWords (symbols : List Symbol) : List Word :=
  symbols.map Symbol.word

/-- The words of the alternatives behind the first one, and the semicolon. -/
def otherWords : List (List Symbol) → List Word
  | [] => [⟨.semicolon,";"⟩]
  | symbols::others => ⟨.pipe,"|"⟩::(alternativeWords symbols++otherWords others)

/-- A name and its alternatives, of which there is at least one. -/
structure RuleSet where
  /-- The name that is defined. -/
  head : NameOf isLower
  /-- The symbols of the first alternative. -/
  first : List Symbol
  /-- The symbols of the alternatives behind it. -/
  others : List (List Symbol)

namespace RuleSet

/-- The name, a colon, and the alternatives with pipes between them and a semicolon
behind them. -/
def words (r : RuleSet) : List Word :=
  ⟨.nonTerminal,r.head.val⟩::⟨.colon,":"⟩::(alternativeWords r.first++otherWords r.others)

/-- All alternatives, with the first one in front. -/
def alternatives (r : RuleSet) : List (List Symbol) :=
  r.first::r.others

/-- The symbols of all alternatives. -/
def symbols (r : RuleSet) : List Symbol :=
  r.first++r.others.flatten

/-- The symbols are those of the alternatives, one after the other. -/
theorem symbols_eq_flatten (r : RuleSet) : r.symbols = r.alternatives.flatten := rfl

end RuleSet

/-- The rule-sets of a specification, in their order. -/
abbrev Specification := List RuleSet

namespace Specification

/-- The words of all rule-sets. -/
def words (g : Specification) : List Word :=
  g.flatMap RuleSet.words

/-- The names that are defined, in the order of their definitions. -/
def names (g : Specification) : List String :=
  g.map (·.head.val)

/-- The symbols of all alternatives of all rule-sets. -/
def symbols (g : Specification) : List Symbol :=
  g.flatMap RuleSet.symbols

/-- The occurrences of non-terminals in alternatives. -/
def uses (g : Specification) : List String :=
  namesOf .nonTerminal (alternativeWords g.symbols)

/-- The occurrences of terminals. -/
def terminals (g : Specification) : List String :=
  namesOf .terminal (alternativeWords g.symbols)

/-- The non-terminals in alternatives that no rule-set defines. -/
def undefinedNames (g : Specification) : NameSet :=
  .ofList (g.uses.filter (· ∉ g.names))

/-- The names that are defined by a rule-set behind the first one and occur in no
alternative. -/
def unusedNames (g : Specification) : NameSet :=
  .ofList (g.names.tail.filter (· ∉ g.uses))

end Specification

/-- The name at `i` is the first one that repeats an earlier one, that at `j`. -/
structure FirstRepeat (names : List String) (name : String) (i j : Nat) : Prop where
  /-- The earlier one comes before. -/
  lt : j < i
  /-- The name at the later place. -/
  later : names[i]? = some name
  /-- The name at the earlier place. -/
  earlier : names[j]? = some name
  /-- Before the later place no name is repeated. -/
  nodup : (names.take i).Nodup

/-- Where names are repeated one of them is the first to repeat an earlier one. -/
theorem exists_firstRepeat {names : List String} (h : ¬names.Nodup) :
    ∃ name i j, FirstRepeat names name i j := by
  induction names using List.reverseRecOn with
  | nil => exact absurd List.nodup_nil h
  | append_singleton names last ih =>
    by_cases hn : names.Nodup
    · -- the last name is the only one that is repeated
      have hmem : last ∈ names := by
        by_contra hnot
        exact h (hn.append (List.nodup_singleton _) (List.disjoint_singleton.mpr hnot))
      obtain ⟨j,hj,he⟩ := List.getElem_of_mem hmem
      refine ⟨last,names.length,j,hj,?_,?_,?_⟩
      · rw [List.getElem?_concat_length]
      · rw [List.getElem?_append_left hj,List.getElem?_eq_getElem hj,he]
      · rwa [List.take_left]
    · obtain ⟨name,i,j,hlt,hlater,hearlier,hnodup⟩ := ih hn
      have hi : i < names.length := (List.getElem?_eq_some_iff.mp hlater).1
      refine ⟨name,i,j,hlt,?_,?_,?_⟩
      · rw [List.getElem?_append_left hi,hlater]
      · rw [List.getElem?_append_left (Nat.lt_trans hlt hi),hearlier]
      · rwa [List.take_append_of_le_length (Nat.le_of_lt hi)]

/-- The words of two alternatives in a row. -/
theorem alternativeWords_append (first second : List Symbol) :
    alternativeWords (first++second) = alternativeWords first++alternativeWords second :=
  List.map_append

/-- Every word of an alternative is a name of its kind. -/
theorem isLexical_of_mem_alternativeWords {symbols : List Symbol} {w : Word}
    (h : w ∈ alternativeWords symbols) : w.IsLexical := by
  obtain ⟨s,_,rfl⟩ := List.mem_map.mp h
  cases s with
  | terminal name => exact ⟨name.property,by simp [Symbol.word]⟩
  | nonTerminal name => exact ⟨name.property,by simp [Symbol.word]⟩

/-- Every word of further alternatives is lexical. -/
theorem isLexical_of_mem_otherWords {others : List (List Symbol)} {w : Word}
    (h : w ∈ otherWords others) : w.IsLexical := by
  induction others with
  | nil =>
    obtain rfl := List.mem_singleton.mp h
    exact ⟨rfl,by decide⟩
  | cons symbols others ih =>
    rcases List.mem_cons.mp h with rfl|h
    · exact ⟨rfl,by decide⟩
    · rcases List.mem_append.mp h with h|h
      · exact isLexical_of_mem_alternativeWords h
      · exact ih h

/-- The kinds of an alternative. -/
theorem isAlternative_kinds (symbols : List Symbol) :
    IsAlternative ((alternativeWords symbols).map (·.kind)) := by
  induction symbols with
  | nil => exact .nothing
  | cons s symbols ih =>
    cases s with
    | terminal name => exact .terminal ih
    | nonTerminal name => exact .nonTerminal ih

/-- The kinds of the alternatives behind the first one. -/
theorem isAlternatives_kinds (others : List (List Symbol)) :
    IsAlternatives ((otherWords others).map (·.kind)) := by
  induction others with
  | nil => exact .semicolon
  | cons symbols others ih =>
    have hpipe := IsAlternatives.pipe (isAlternative_kinds symbols) ih
    rwa [←List.map_append] at hpipe

/-- The kinds of a rule-set. -/
theorem RuleSet.isRuleSet_kinds (r : RuleSet) : IsRuleSet (r.words.map (·.kind)) := by
  have hrule := IsRuleSet.ruleSet (isAlternative_kinds r.first) (isAlternatives_kinds r.others)
  rwa [←List.map_append] at hrule

/-- As many words are of a kind as there are names of it. -/
theorem countP_kind (kind : Token.Kind) (words : List Word) :
    words.countP (·.kind = kind) = (namesOf kind words).length := by
  rw [namesOf,List.length_map,List.countP_eq_length_filter]

/-- The names of a kind in two lists in a row. -/
theorem namesOf_append (kind : Token.Kind) (first second : List Word) :
    namesOf kind (first++second) = namesOf kind first++namesOf kind second := by
  rw [namesOf,List.filter_append,List.map_append]
  rfl

/-- Where no semicolon stands, every non-terminal is a use. -/
theorem usesBehind_of_not_mem {previous : Token.Kind} {words : List Word}
    (hp : previous ≠ .semicolon) (h : .semicolon ∉ words.map (·.kind)) :
    usesBehind previous words = namesOf .nonTerminal words := by
  induction words generalizing previous with
  | nil => rfl
  | cons w words ih =>
    rw [List.map_cons,List.mem_cons,not_or] at h
    have hw := ih (Ne.symm h.1) h.2
    by_cases hk : w.kind = .nonTerminal
    · rw [usesBehind,if_pos ⟨hp,hk⟩,hw]
      simp [namesOf,hk]
    · rw [usesBehind,if_neg (fun hs => hk hs.2),hw]
      simp [namesOf,hk]

/-- The signs between alternatives are no names. -/
theorem namesOf_otherWords {kind : Token.Kind} (hk : kind = .nonTerminal ∨ kind = .terminal)
    (others : List (List Symbol)) :
    namesOf kind (otherWords others) = namesOf kind (alternativeWords others.flatten) := by
  have hpipe : .pipe ≠ kind := by rcases hk with rfl|rfl <;> decide
  have hsemicolon : .semicolon ≠ kind := by rcases hk with rfl|rfl <;> decide
  induction others with
  | nil => simp [otherWords,namesOf,alternativeWords,hsemicolon]
  | cons symbols others ih =>
    have hsign (words : List Word) : namesOf kind (⟨.pipe,"|"⟩::words) = namesOf kind words := by
      simp [namesOf,hpipe]
    rw [otherWords,hsign,namesOf_append,ih,←namesOf_append,List.flatten_cons,
      alternativeWords_append]

namespace RuleSet

/-- Behind the head and the colon the names are those of the alternatives. -/
theorem namesOf_alternatives {kind : Token.Kind} (hk : kind = .nonTerminal ∨ kind = .terminal)
    (r : RuleSet) : namesOf kind (alternativeWords r.first++otherWords r.others) =
      namesOf kind (alternativeWords r.symbols) := by
  rw [namesOf_append,namesOf_otherWords hk,←namesOf_append,symbols,alternativeWords_append]

/-- The last word of a rule-set is its semicolon. -/
theorem getLastD_kinds (r : RuleSet) (previous : Token.Kind) :
    (r.words.map (·.kind)).getLastD previous = .semicolon := by
  obtain ⟨body,hk,_⟩ := r.isRuleSet_kinds.eq_cons
  rw [hk,←List.cons_append,List.getLastD_concat]

/-- The uses in a rule-set are the non-terminals of its alternatives. -/
theorem usesBehind_words (r : RuleSet) :
    usesBehind .semicolon r.words = namesOf .nonTerminal (alternativeWords r.symbols) := by
  obtain ⟨body,hk,hb⟩ := r.isRuleSet_kinds.eq_cons
  obtain ⟨inner,final,hsplit,hinner,hfinal⟩ := List.map_eq_append_iff.mp (List.cons.inj hk).2
  obtain ⟨last,_,rfl,hlast,hnil⟩ := List.map_eq_cons_iff.mp hfinal
  obtain rfl := List.map_eq_nil_iff.mp hnil
  have hsemicolon : .semicolon ∉ inner.map (·.kind) := by rwa [hinner]
  have hhead : usesBehind .semicolon r.words = usesBehind .nonTerminal (inner++[last]) := by
    rw [←hsplit]
    rfl
  have hend : usesBehind ((inner.map (·.kind)).getLastD .nonTerminal) [last] = [] := by
    simp [usesBehind,hlast]
  have hcolon : namesOf .nonTerminal inner =
      namesOf .nonTerminal (alternativeWords r.first++otherWords r.others) := by
    have hall := congrArg (namesOf .nonTerminal) hsplit
    rw [namesOf_append] at hall
    simpa [namesOf,hlast] using hall.symm
  rw [hhead,usesBehind_append,usesBehind_of_not_mem (by decide) hsemicolon,hend,
    List.append_nil,hcolon,r.namesOf_alternatives (Or.inl rfl)]

/-- In front of the alternatives of a rule-set stands one non-terminal. -/
theorem countP_words (r : RuleSet) {kind : Token.Kind}
    (hk : kind = .nonTerminal ∨ kind = .terminal) :
    r.words.countP (·.kind = kind) = (if kind = .nonTerminal then 1 else 0)+
      (namesOf kind (alternativeWords r.symbols)).length := by
  rw [words,List.countP_cons,List.countP_cons,countP_kind,r.namesOf_alternatives hk]
  rcases hk with rfl|rfl <;> simp [Nat.add_comm]

end RuleSet

namespace Specification

/-- The words of the first rule-set come first. -/
theorem words_cons (r : RuleSet) (g : Specification) : words (r::g) = r.words++words g :=
  List.flatMap_cons

/-- The names of a kind in the alternatives of the first rule-set come first. -/
theorem namesOf_symbols_cons (kind : Token.Kind) (r : RuleSet) (g : Specification) :
    namesOf kind (alternativeWords (symbols (r::g))) =
      namesOf kind (alternativeWords r.symbols)++namesOf kind (alternativeWords (symbols g)) := by
  rw [symbols,List.flatMap_cons,alternativeWords_append,namesOf_append]
  rfl

/-- Every word of a specification is lexical. -/
theorem isLexical_of_mem_words {g : Specification} {w : Word} (h : w ∈ words g) :
    w.IsLexical := by
  obtain ⟨r,_,hw⟩ := List.mem_flatMap.mp h
  rcases List.mem_cons.mp hw with rfl|hw
  · exact ⟨r.head.property,by simp⟩
  rcases List.mem_cons.mp hw with rfl|hw
  · exact ⟨rfl,by decide⟩
  rcases List.mem_append.mp hw with hw|hw
  · exact isLexical_of_mem_alternativeWords hw
  · exact isLexical_of_mem_otherWords hw

/-- The words of a specification lead from one head to the next. -/
theorem after?_words (g : Specification) :
    Expecting.after? .head ((words g).map (·.kind)) = some .head := by
  induction g with
  | nil => rfl
  | cons r g ih =>
    have hr := Expecting.after?_of_isRuleSet r.isRuleSet_kinds
    rw [words_cons,List.map_append,Expecting.after?_append_of_some hr,ih]

/-- The uses among the words are the non-terminals of the alternatives. -/
theorem usesBehind_words (g : Specification) : usesBehind .semicolon (words g) = uses g := by
  induction g with
  | nil => rfl
  | cons r g ih =>
    rw [words_cons,usesBehind_append,r.getLastD_kinds,r.usesBehind_words,ih,uses,uses,
      namesOf_symbols_cons]

/-- Every rule-set has one non-terminal in front of its alternatives. -/
theorem countP_nonTerminal (g : Specification) :
    (words g).countP (·.kind = .nonTerminal) = g.length+(uses g).length := by
  induction g with
  | nil => rfl
  | cons r g ih =>
    rw [words_cons,List.countP_append,ih,r.countP_words (Or.inl rfl),if_pos rfl,uses,uses,
      namesOf_symbols_cons,List.length_append,List.length_cons]
    omega

/-- All terminals are in the alternatives. -/
theorem countP_terminal (g : Specification) :
    (words g).countP (·.kind = .terminal) = (terminals g).length := by
  induction g with
  | nil => rfl
  | cons r g ih =>
    rw [words_cons,List.countP_append,ih,r.countP_words (Or.inr rfl),if_neg (by decide),
      terminals,terminals,namesOf_symbols_cons,List.length_append,Nat.zero_add]

/-- The words of the first rule-sets come first. -/
theorem words_take_append (g : Specification) (i : Nat) :
    words (g.take i)++words (g.drop i) = words g := by
  rw [words,words,←List.flatMap_append,List.take_append_drop]
  rfl

/-- Tokens with the words of a specification have one head for each name, and it is
the token behind the words of the rule-sets before it. -/
theorem heads_of_words {g : Specification} {tokens : List Token}
    (h : tokens.map Token.word = words g) :
    (heads tokens).map (·.lexeme) = names g ∧
      ∀ i, (heads tokens)[i]? = tokens[(words (g.take i)).length]? := by
  induction g generalizing tokens with
  | nil =>
    obtain rfl := List.map_eq_nil_iff.mp h
    exact ⟨rfl,fun i => by rw [List.take_nil]; rfl⟩
  | cons r g ih =>
    rw [words_cons] at h
    obtain ⟨first,second,rfl,hfirst,hsecond⟩ := List.map_eq_append_iff.mp h
    have hkinds : IsRuleSet (first.map (·.kind)) := by
      rw [←kinds_words,hfirst]
      exact r.isRuleSet_kinds
    obtain ⟨t,rest,rfl,hheads⟩ := heads_ruleSet hkinds second
    obtain ⟨hnames,hplaces⟩ := ih hsecond
    have hlexeme : t.lexeme = r.head.val := congrArg Word.lexeme (List.cons.inj hfirst).1
    constructor
    · rw [hheads,List.map_cons,hnames,hlexeme]
      rfl
    · intro i
      cases i with
      | zero =>
        rw [hheads]
        rfl
      | succ i =>
        rw [hheads,List.getElem?_cons_succ,hplaces,List.take_succ_cons,words_cons,
          List.length_append,←hfirst,List.length_map,
          List.getElem?_append_right (Nat.le_add_right ..),Nat.add_sub_cancel_left]

/-- Among tokens with the words of a specification each name is that of the head
behind the words of the rule-sets before it. -/
theorem exists_head_of_words {g : Specification} {tokens : List Token}
    (h : tokens.map Token.word = words g) {name : String} {i : Nat}
    (hi : (names g)[i]? = some name) :
    ∃ t, tokens[(words (g.take i)).length]? = some t ∧ t ∈ heads tokens ∧ t.lexeme = name := by
  obtain ⟨hnames,hplaces⟩ := heads_of_words h
  rw [←hnames,List.getElem?_map,Option.map_eq_some_iff] at hi
  obtain ⟨t,ht,hname⟩ := hi
  refine ⟨t,?_,List.mem_of_getElem? ht,hname⟩
  rw [←hplaces,ht]

end Specification

end GrammarCensus
