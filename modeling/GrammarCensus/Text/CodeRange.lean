/-!
# Ranges of code points

A class of characters is given by some ranges of code points. White space is
the class of the blank characters of all scripts; the larger classes have
modules of their own.
-/

namespace GrammarCensus

/-- Code points in a row. -/
structure CodeRange where
  /-- The first code point. -/
  first : Nat
  /-- The last code point, which belongs to the range. -/
  last : Nat
deriving Repr, DecidableEq, Inhabited

namespace CodeRange

/-- Whether a character lies in a range. -/
def contains (r : CodeRange) (c : Char) : Bool :=
  decide (r.first ≤ c.toNat) && decide (c.toNat ≤ r.last)

/-- Whether a character lies in one of some ranges. -/
def anyContains (ranges : List CodeRange) (c : Char) : Bool :=
  ranges.any (·.contains c)

end CodeRange

/-- The blank characters of Unicode. -/
def whiteSpaceRanges : List CodeRange :=
  [⟨0x9,0xd⟩,⟨0x20,0x20⟩,⟨0x85,0x85⟩,⟨0xa0,0xa0⟩,⟨0x1680,0x1680⟩,⟨0x2000,0x200a⟩,
    ⟨0x2028,0x2029⟩,⟨0x202f,0x202f⟩,⟨0x205f,0x205f⟩,⟨0x3000,0x3000⟩]

/-- Whether a character is blank in any script. -/
def isWhiteSpace (c : Char) : Bool :=
  CodeRange.anyContains whiteSpaceRanges c

end GrammarCensus
