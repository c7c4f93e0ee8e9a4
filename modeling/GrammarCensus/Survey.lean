import GrammarCensus.Registry

/-!
# Surveys

What is known of a specification after its syntax has been recognized: the
registry of its non-terminals and how often names of either kind occur. Nothing
of the alternatives themselves is kept.
-/

namespace GrammarCensus

/-- The findings on a recognized specification. -/
structure Survey where
  /-- The definitions and uses of non-terminals. -/
  registry : Registry
  /-- The occurrences of non-terminals, the defining ones included. -/
  nonTerminals : Nat
  /-- The occurrences of terminals. -/
  terminals : Nat
deriving DecidableEq, Inhabited

end GrammarCensus
