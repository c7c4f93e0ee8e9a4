import GrammarCensus.Survey

/-!
# The census of a closed grammar

A grammar is closed when it has a rule-set, every used non-terminal is defined
and every defined one is used somewhere. Whether a non-terminal can be reached
from the start symbol plays no part. The census of a closed grammar is three
numbers; of any other one it is the first reason why the grammar is not closed.
-/

namespace GrammarCensus

/-- The three numbers of a closed grammar. -/
structure Census where
  /-- The non-terminals that have a rule-set. -/
  ruleSets : Nat
  /-- The occurrences of non-terminals, the defining ones included. -/
  nonTerminals : Nat
  /-- The occurrences of terminals. -/
  terminals : Nat
deriving Repr, DecidableEq, Inhabited

/-- The three numbers, with single spaces between them. -/
def Census.render (c : Census) : String :=
  c.ruleSets.repr++" "++c.nonTerminals.repr++" "++c.terminals.repr

/-- Why a grammar is not closed. -/
inductive ClosureError
  /-- It has no rule-set at all. -/
  | noRuleSets
  /-- Some used non-terminals have no rule-set. -/
  | undefined (names : NameSet)
  /-- Some defined non-terminals are used nowhere. -/
  | unused (names : NameSet)
deriving DecidableEq, Inhabited

/-- The diagnostic for a reader, which lists the names concerned. -/
def ClosureError.message : ClosureError → String
  | .noRuleSets => "no rule-sets found"
  | .undefined names => "no rules for "++names.render
  | .unused names => "no uses of rules for "++names.render

namespace Registry

/-- The used names without a definition. -/
def undefinedNames (r : Registry) : NameSet :=
  .ofList (r.used.names.filter fun name => !r.hasDefinition name)

/-- The defined names without a use. -/
def unusedNames (r : Registry) : NameSet :=
  .ofList (r.defined.names.filter fun name => !r.hasUse name)

/-- A name is undefined when it is used and has no definition. -/
theorem mem_undefinedNames {r : Registry} {name : String} :
    name ∈ r.undefinedNames ↔ name ∈ r.used ∧ r.hasDefinition name = false := by
  rw [undefinedNames,NameSet.mem_ofList,List.mem_filter,Bool.not_eq_true']
  rfl

/-- A name is unused when it has a definition and no use. -/
theorem mem_unusedNames {r : Registry} {name : String} :
    name ∈ r.unusedNames ↔ name ∈ r.defined ∧ r.hasUse name = false := by
  rw [unusedNames,NameSet.mem_ofList,List.mem_filter,Bool.not_eq_true']
  rfl

end Registry

/-- The census of a surveyed grammar, if it is closed. Undefined names are
looked for before unused ones. -/
def Survey.census (s : Survey) : Except ClosureError Census :=
  if s.registry.size = 0 then .error .noRuleSets
  else if s.registry.undefinedNames.isEmpty = false then
    .error (.undefined s.registry.undefinedNames)
  else if s.registry.unusedNames.isEmpty = false then
    .error (.unused s.registry.unusedNames)
  else .ok ⟨s.registry.size,s.nonTerminals,s.terminals⟩

namespace Survey

/-- Without definitions nothing else matters. -/
theorem census_of_size_eq_zero {s : Survey} (h : s.registry.size = 0) :
    s.census = .error .noRuleSets :=
  if_pos h

/-- Undefined names are reported, whatever is unused. -/
theorem census_of_undefinedNames_ne {s : Survey} (hs : s.registry.size ≠ 0)
    (hu : s.registry.undefinedNames ≠ .empty) :
    s.census = .error (.undefined s.registry.undefinedNames) := by
  rw [ne_eq,←NameSet.isEmpty_iff_eq_empty,Bool.not_eq_true] at hu
  rw [census,if_neg hs,if_pos hu]

/-- Unused names are reported where all used ones are defined. -/
theorem census_of_unusedNames_ne {s : Survey} (hs : s.registry.size ≠ 0)
    (hu : s.registry.undefinedNames = .empty) (hn : s.registry.unusedNames ≠ .empty) :
    s.census = .error (.unused s.registry.unusedNames) := by
  rw [←NameSet.isEmpty_iff_eq_empty] at hu
  rw [ne_eq,←NameSet.isEmpty_iff_eq_empty,Bool.not_eq_true] at hn
  rw [census,if_neg hs,if_neg (by simp [hu]),if_pos hn]

/-- The numbers are the census where neither is found. -/
theorem census_of_closed {s : Survey} (hs : s.registry.size ≠ 0)
    (hu : s.registry.undefinedNames = .empty) (hn : s.registry.unusedNames = .empty) :
    s.census = .ok ⟨s.registry.size,s.nonTerminals,s.terminals⟩ := by
  rw [←NameSet.isEmpty_iff_eq_empty] at hu hn
  rw [census,if_neg hs,if_neg (by simp [hu]),if_neg (by simp [hn])]

end Survey

end GrammarCensus
