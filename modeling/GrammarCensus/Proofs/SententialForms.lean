import Mathlib.Computability.ContextFreeGrammar
import GrammarCensus.Analysis
import GrammarCensus.Proofs.Denotation

/-!
# Sentential forms of a specification

A specification as a context-free grammar, with one rule for each alternative of each
rule-set, and the sentential forms that can be derived in it from the name of the first
rule-set. One step of a derivation brings in no other non-terminals than those of an
alternative, so only these and the start symbol occur in any form. The check for closure
knows nothing of derivations, but what it says holds for all of them.
-/

namespace GrammarCensus

open Lexicon

/-- Names are compared as texts. -/
instance (first : Char → Bool) : DecidableEq (NameOf first) :=
  inferInstanceAs (DecidableEq { text : String // IsName first text.toList })

/-- The rule of one alternative. -/
def RuleSet.rule (r : RuleSet) (symbols : List Symbol) :
    ContextFreeRule (NameOf isUpper) (NameOf isLower) where
  input := r.head
  output := symbols.map fun
    | .terminal name => .terminal name
    | .nonTerminal name => .nonterminal name

/-- The non-terminals of a rule are those of the alternative. -/
theorem RuleSet.nonterminal_mem_output {r : RuleSet} {symbols : List Symbol} {x : NameOf isLower} :
    .nonterminal x ∈ (r.rule symbols).output ↔ .nonTerminal x ∈ symbols := by
  rw [rule,List.mem_map]
  constructor
  · rintro ⟨s,hs,heq⟩
    cases s with
    | terminal name => cases heq
    | nonTerminal name =>
      cases heq
      exact hs
  · intro hx
    exact ⟨_,hx,rfl⟩

namespace Specification

/-- The rules of all alternatives. -/
def rules (g : Specification) : List (ContextFreeRule (NameOf isUpper) (NameOf isLower)) :=
  g.flatMap fun r => r.alternatives.map r.rule

/-- The context-free grammar with these rules and a start symbol. -/
def grammar (g : Specification) (start : NameOf isLower) : ContextFreeGrammar (NameOf isUpper) where
  NT := NameOf isLower
  initial := start
  rules := (rules g).toFinset

/-- The start symbol of a specification is the name of its first rule-set. -/
def StartsWith (g : Specification) (start : NameOf isLower) : Prop :=
  g.head?.map (·.head) = some start

variable {g : Specification} {start : NameOf isLower}

/-- A specification that starts with a name has it for its first one. -/
theorem StartsWith.startName (h : StartsWith g start) : startName g = start.val := by
  cases g with
  | nil => cases h
  | cons r g => exact congrArg Subtype.val (Option.some.inj h)

/-- A specification with a rule-set has a start symbol. -/
theorem exists_startsWith (h : g ≠ []) : ∃ start, StartsWith g start := by
  obtain ⟨r,g,rfl⟩ := List.exists_cons_of_ne_nil h
  exact ⟨r.head,rfl⟩

/-- The rules are those of the alternatives. -/
theorem mem_rules {rule : ContextFreeRule (NameOf isUpper) (NameOf isLower)} :
    rule ∈ rules g ↔ ∃ r ∈ g, ∃ symbols ∈ r.alternatives, r.rule symbols = rule := by
  rw [rules,List.mem_flatMap]
  simp only [List.mem_map]

/-- A non-terminal of an alternative is a use. -/
theorem mem_uses {r : RuleSet} {symbols : List Symbol} {x : NameOf isLower} (hr : r ∈ g)
    (hsymbols : symbols ∈ r.alternatives) (hx : .nonTerminal x ∈ symbols) : x.val ∈ uses g := by
  have hall : .nonTerminal x ∈ Specification.symbols g :=
    List.mem_flatMap.mpr ⟨r,hr,List.mem_flatten.mpr ⟨symbols,hsymbols,hx⟩⟩
  have hword : (Symbol.nonTerminal x).word ∈ alternativeWords (Specification.symbols g) :=
    List.mem_map_of_mem hall
  exact List.mem_map.mpr ⟨_,List.mem_filter.mpr ⟨hword,by simp [Symbol.word]⟩,rfl⟩

/-- One step brings in no other non-terminals than those of an alternative. -/
theorem mem_of_produces {form next} (h : (grammar g start).Produces form next)
    {x : NameOf isLower} (hx : .nonterminal x ∈ next) :
    .nonterminal x ∈ form ∨ x.val ∈ uses g := by
  obtain ⟨rule,hrule,hrewrites⟩ := h
  obtain ⟨r,hr,symbols,hsymbols,rfl⟩ := mem_rules.mp (List.mem_toFinset.mp hrule)
  obtain ⟨front,back,rfl,rfl⟩ := hrewrites.exists_parts
  rw [List.mem_append,List.mem_append] at hx
  rcases hx with (hx|hx)|hx
  · exact Or.inl (List.mem_append_left _ (List.mem_append_left _ hx))
  · exact Or.inr (mem_uses hr hsymbols (RuleSet.nonterminal_mem_output.mp hx))
  · exact Or.inl (List.mem_append_right _ hx)

/-- In every form that can be derived from the start symbol, the other non-terminals are
those of alternatives. -/
theorem mem_of_derives {form} (h : (grammar g start).Derives [.nonterminal start] form)
    {x : NameOf isLower} (hx : .nonterminal x ∈ form) : x = start ∨ x.val ∈ uses g := by
  induction h with
  | refl =>
    cases List.mem_singleton.mp hx
    exact Or.inl rfl
  | tail _ hstep ih =>
    rcases mem_of_produces hstep hx with hbefore|hused
    · exact ih hbefore
    · exact Or.inr hused

/-- A name that has a rule-set can be replaced wherever it stands. -/
theorem exists_produces {x : NameOf isLower} (hx : x.val ∈ names g) (front back) :
    ∃ output, (grammar g start).Produces (front++[.nonterminal x]++back) (front++output++back) := by
  obtain ⟨r,hr,hhead⟩ := List.mem_map.mp hx
  obtain rfl := Subtype.ext hhead
  have hrule : r.rule r.first ∈ (rules g).toFinset :=
    List.mem_toFinset.mpr (mem_rules.mpr ⟨r,hr,r.first,List.mem_cons_self,rfl⟩)
  exact ⟨_,_,hrule,ContextFreeRule.rewrites_of_exists_parts (r.rule r.first) front back⟩

end Specification

/-- Only used names occur in a form that can be derived. -/
theorem Survey.SumsUp.mem_usedNames {s : Survey} {g : Specification} {start : NameOf isLower}
    (hsum : s.SumsUp g) (hstart : g.StartsWith start) {form}
    (h : (g.grammar start).Derives [.nonterminal start] form) {x : NameOf isLower}
    (hx : .nonterminal x ∈ form) : x.val ∈ s.registry.usedNames := by
  rw [hsum.usedNames,hstart.startName,Finset.mem_insert,List.mem_toFinset]
  exact (Specification.mem_of_derives h hx).imp (congrArg Subtype.val) id

/-- An accepted text denotes one specification. If it has a census, then in every form
that can be derived from the start symbol each non-terminal has a rule-set, so that it can
be replaced there. If names are reported as unused, then none of them occurs in any form
that can be derived from the start symbol. -/
theorem census_derives {text : String} {s : Survey} (h : survey text = .ok s) :
    ∃ g, Denotes text g ∧ (∀ g', Denotes text g' → g' = g) ∧
      (∀ c, census text = .ok c → ∃ start, g.StartsWith start ∧
        ∀ form, (g.grammar start).Derives [.nonterminal start] form →
          ∀ x : NameOf isLower, .nonterminal x ∈ form → (∃ r ∈ g, r.head = x) ∧
            ∀ front back, form = front++[.nonterminal x]++back →
              ∃ output, (g.grammar start).Produces form (front++output++back)) ∧
      ∀ names, census text = .error (.notClosed (.unused names)) →
        ∃ start, g.StartsWith start ∧
          ∀ form, (g.grammar start).Derives [.nonterminal start] form →
            ∀ x : NameOf isLower, .nonterminal x ∈ form → x.val ∉ names := by
  obtain ⟨g,hg,hunique⟩ := Denotes.existsUnique h
  have hsum := hg.sumsUp h
  refine ⟨g,hg,hunique,fun c hc => ?_,fun names hnames => ?_⟩
  · obtain ⟨hdefined,heq,_⟩ := Survey.census_eq_closed_iff.mp ((census_eq_ok_iff h).mp hc)
    obtain ⟨start,hstart⟩ := Specification.exists_startsWith (hsum.ne_nil hdefined)
    refine ⟨start,hstart,fun form hform x hx => ?_⟩
    have hname : x.val ∈ Specification.names g := by
      rw [←List.mem_toFinset,←hsum.definedNames,←heq]
      exact hsum.mem_usedNames hstart hform hx
    obtain ⟨r,hr,hhead⟩ := List.mem_map.mp hname
    refine ⟨⟨r,hr,Subtype.ext hhead⟩,?_⟩
    rintro front back rfl
    exact Specification.exists_produces hname front back
  · obtain ⟨hdefined,_,_,hmembers⟩ :=
      Survey.census_eq_unused_iff.mp ((census_eq_notClosed_iff h).mp hnames)
    obtain ⟨start,hstart⟩ := Specification.exists_startsWith (hsum.ne_nil hdefined)
    refine ⟨start,hstart,fun form hform x hx hmem => ?_⟩
    rw [←NameSet.mem_toFinset,hmembers,Finset.mem_sdiff] at hmem
    exact hmem.2 (hsum.mem_usedNames hstart hform hx)

/-- Where all names have a rule-set, those in every form do. Where `n` has one that nothing
uses, it is in no form, although `s` can be derived from it. -/
theorem census_derives_twoTexts :
    (census "s : A | m s ;\nm : ;" = .ok ⟨2,4,1⟩ ∧
      ∃ g start, Denotes "s : A | m s ;\nm : ;" g ∧ g.StartsWith start ∧
        ∀ form, (g.grammar start).Derives [.nonterminal start] form →
          ∀ x : NameOf isLower, .nonterminal x ∈ form → ∃ r ∈ g, r.head = x) ∧
    census "s : A | m s ;\nm : ;\nn : s ;" = .error (.notClosed (.unused (.ofList ["n"]))) ∧
      ∃ g start, Denotes "s : A | m s ;\nm : ;\nn : s ;" g ∧ g.StartsWith start ∧
        ∀ form, (g.grammar start).Derives [.nonterminal start] form →
          ∀ x : NameOf isLower, .nonterminal x ∈ form → x.val ≠ "n" := by
  constructor
  · have hcensus : census "s : A | m s ;\nm : ;" = .ok ⟨2,4,1⟩ := by decide +kernel
    have hsurvey : ∃ s, survey "s : A | m s ;\nm : ;" = .ok s :=
      (exists_survey_iff _).mpr ⟨by decide +kernel,by decide +kernel⟩
    obtain ⟨s,hs⟩ := hsurvey
    obtain ⟨g,hg,_,hclosed,_⟩ := census_derives hs
    obtain ⟨start,hstart,hforms⟩ := hclosed _ hcensus
    exact ⟨hcensus,g,start,hg,hstart,fun form hform x hx => (hforms form hform x hx).1⟩
  · have hcensus : census "s : A | m s ;\nm : ;\nn : s ;" =
        .error (.notClosed (.unused (.ofList ["n"]))) := by decide +kernel
    obtain ⟨s,hs,_⟩ := exists_survey_of_notClosed hcensus
    obtain ⟨g,hg,_,_,hunused⟩ := census_derives hs
    obtain ⟨start,hstart,hforms⟩ := hunused _ hcensus
    refine ⟨hcensus,g,start,hg,hstart,fun form hform x hx hn => hforms form hform x hx ?_⟩
    rw [hn]
    decide

end GrammarCensus
