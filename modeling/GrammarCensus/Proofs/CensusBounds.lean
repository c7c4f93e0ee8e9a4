import GrammarCensus.Analysis
import GrammarCensus.Proofs.ClosureChecks
import GrammarCensus.Proofs.Denotation

/-!
# Bounds on a census

How far the three numbers of a census depend on one another and on the tokens of the text.
Every token but the signs between alternatives is counted by one of them, heads with the
two signs that belong to each. In a closed grammar every name but the first occurs once as
a head and once more in an alternative, which bounds the occurrences from below. The main
statement is that both hold of every text that has a census.
-/

namespace GrammarCensus

/-- Tokens that lead from one state of recognition to another are names and signs, so they
are as many as there are of the five kinds together. -/
theorem Expecting.length_eq_countP {e next : Expecting} {tokens : List Token}
    (h : e.after? (tokens.map (·.kind)) = some next) :
    tokens.length = tokens.countP (·.kind = .nonTerminal)+tokens.countP (·.kind = .terminal)+
      tokens.countP (·.kind = .colon)+tokens.countP (·.kind = .semicolon)+
      tokens.countP (·.kind = .pipe) := by
  induction tokens generalizing e with
  | nil => rfl
  | cons t tokens ih =>
    rw [List.map_cons,after?_cons,Option.bind_eq_some_iff] at h
    obtain ⟨middle,hm,h⟩ := h
    have hlength := ih h
    -- in no state comes the end or a stray character next
    have hkind : t.kind ≠ .endOfInput ∧ t.kind ≠ .error := by
      constructor <;> intro hk <;> rw [hk] at hm <;> cases e <;> cases hm
    rw [List.length_cons,hlength]
    simp only [List.countP_cons]
    cases hk : t.kind with
    | endOfInput => exact absurd hk hkind.1
    | error => exact absurd hk hkind.2
    | colon | pipe | semicolon | nonTerminal | terminal => simp; omega

namespace Survey

variable {s : Survey}

/-- The tokens of a text are the names that its survey counts, a colon and a semicolon for
each definition, and the signs between alternatives. -/
theorem Describes.length_tokens {text : String}
    (hd : s.Describes (tokens text) (firstToken text)) :
    (tokens text).length = s.nonTerminals+s.terminals+2*s.registry.size+
      (tokens text).countP (·.kind = .pipe) := by
  have hlength := Expecting.length_eq_countP hd.closed
  obtain ⟨hcolon,hsemicolon⟩ := hd.size_eq
  rw [←hd.nonTerminals,←hd.terminals,←hcolon,←hsemicolon] at hlength
  omega

namespace SumsUp

variable {g : Specification}

/-- In a closed grammar every name but the first one has a use of its own. -/
theorem size_le (hsum : s.SumsUp g) (h : s.registry.usedNames = s.registry.definedNames) :
    s.registry.size ≤ (Specification.uses g).length+1 := by
  calc s.registry.size
      = (insert (Specification.startName g) (Specification.uses g).toFinset).card := by
        rw [←Registry.card_definedNames,←h,hsum.usedNames]
    _ ≤ (Specification.uses g).toFinset.card+1 := Finset.card_insert_le ..
    _ ≤ (Specification.uses g).length+1 :=
        Nat.add_le_add_right (List.toFinset_card_le _) 1

/-- In a closed grammar every name but the first one occurs twice. -/
theorem two_mul_size_le (hsum : s.SumsUp g)
    (h : s.registry.usedNames = s.registry.definedNames) :
    2*s.registry.size ≤ s.nonTerminals+1 := by
  have huses := hsum.size_le h
  have hheads := hsum.size
  have hcounted := hsum.nonTerminals
  omega

end SumsUp

end Survey

/-- A text with a census has a rule-set, one occurrence of a non-terminal less than twice
as many as rule-sets at least, and as many tokens as its census counts, with two more for
every rule-set and one for every sign between alternatives. -/
theorem census_bounds {text : String} {c : Census} (h : census text = .ok c) :
    1 ≤ c.ruleSets ∧ 2*c.ruleSets-1 ≤ c.nonTerminals ∧
    (tokens text).length = c.nonTerminals+c.terminals+2*c.ruleSets+
      (tokens text).countP (·.kind = .pipe) := by
  obtain ⟨s,hs,hc⟩ := exists_survey_of_census h
  obtain ⟨hdefined,hclosed,rfl⟩ := Survey.census_eq_closed_iff.mp hc
  obtain ⟨g,hg,_⟩ := Denotes.existsUnique hs
  have htwice := (hg.sumsUp hs).two_mul_size_le hclosed
  have hlength := (describes_of_survey hs).length_tokens
  rw [←Registry.card_definedNames] at htwice hlength
  have hpos : 0 < s.registry.definedNames.card :=
    Finset.card_pos.mpr (Finset.nonempty_iff_ne_empty.mpr hdefined)
  exact ⟨hpos,Nat.sub_le_of_le_add htwice,hlength⟩

/-- The least number of occurrences that two rule-sets can have is three. -/
theorem census_bounds_reached :
    census "s : n ;\nn : A | ;" = .ok ⟨2,3,1⟩ ∧ 2*2-1 ≤ 3 ∧
    (tokens "s : n ;\nn : A | ;").length =
      3+1+2*2+(tokens "s : n ;\nn : A | ;").countP (·.kind = .pipe) := by
  have hcensus : census "s : n ;\nn : A | ;" = .ok ⟨2,3,1⟩ := by decide +kernel
  obtain ⟨_,hle,hlength⟩ := census_bounds hcensus
  exact ⟨hcensus,hle,hlength⟩

end GrammarCensus
