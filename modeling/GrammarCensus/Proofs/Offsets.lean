import Mathlib.Order.Bounds.Defs
import Mathlib.Order.Monotone.Basic
import GrammarCensus.Proofs.Positions

/-!
# The order of offsets

Offsets in bytes and positions in lines and columns are two ways to name a place in a
text. An offset within a character counts as the boundary in front of that character, and
one beyond the end as the end. The main statement is that positions are then in the order
of offsets, and strictly so on boundaries, so that tokens compare by their positions as
they do by the bytes at which they begin.
-/

namespace GrammarCensus

/-- The boundaries of a text up to an offset, which may lie beyond its end. -/
def boundariesUpTo (text : List Char) (offset : Nat) : Set Nat :=
  {b | IsBoundary text b ∧ b ≤ min offset (byteLength text)}

namespace Position

/-- The comparison of two positions says in which order they are. -/
theorem compares_compare (p q : Position) : (compare p q).Compares p q := by
  have hthen : compare p q = (compare p.line q.line).then (compare p.column q.column) := rfl
  rw [hthen]
  rcases Nat.lt_trichotomy p.line q.line with hline|hline|hline
  · rw [Nat.compare_eq_lt.mpr hline]
    exact Or.inl hline
  · -- on one line the columns decide
    rw [Nat.compare_eq_eq.mpr hline]
    rcases Nat.lt_trichotomy p.column q.column with hcolumn|hcolumn|hcolumn
    · rw [Nat.compare_eq_lt.mpr hcolumn]
      exact Or.inr ⟨hline,hcolumn⟩
    · rw [Nat.compare_eq_eq.mpr hcolumn]
      exact congrArg₂ mk hline hcolumn
    · rw [Nat.compare_eq_gt.mpr hcolumn]
      exact Or.inr ⟨hline.symm,hcolumn⟩
  · rw [Nat.compare_eq_gt.mpr hline]
    exact Or.inl hline

/-- The beginning of a text takes no more bytes than it may. -/
theorem byteLength_beginning_le (budget : Nat) (text : List Char) :
    byteLength (beginning budget text) ≤ budget := by
  induction text generalizing budget with
  | nil => exact Nat.zero_le _
  | cons c text ih =>
    rw [beginning]
    split
    next hle =>
      have htail := ih (budget-c.utf8Size)
      rw [byteLength_cons]
      omega
    next => exact Nat.zero_le _

/-- Every part in front of a text that takes no more bytes is in front of the beginning. -/
theorem isPrefix_beginning {front text : List Char} {budget : Nat} (h : front <+: text)
    (hle : byteLength front ≤ budget) : front <+: beginning budget text := by
  induction front generalizing text budget with
  | nil => exact List.nil_prefix
  | cons c front ih =>
    obtain ⟨rest,rfl⟩ := h
    rw [byteLength_cons] at hle
    have hc : c.utf8Size ≤ budget := by omega
    rw [List.cons_append,beginning,if_pos hc]
    exact List.cons_prefix_cons.mpr ⟨rfl,ih (List.prefix_append ..) (by omega)⟩

/-- A greater budget takes at least as much. -/
theorem isPrefix_beginning_of_le {m n : Nat} (h : m ≤ n) (text : List Char) :
    beginning m text <+: beginning n text := by
  have hfront := beginning_prefix m text
  exact isPrefix_beginning hfront (Nat.le_trans (byteLength_beginning_le m text) h)

/-- A budget up to a boundary is used up. -/
theorem byteLength_beginning_of_isBoundary {text : List Char} {b : Nat}
    (h : IsBoundary text b) : byteLength (beginning b text) = b := by
  obtain ⟨front,rest,rfl,rfl⟩ := h
  rw [beginning_byteLength]

/-- The beginning of a text ends at the greatest boundary up to its budget. -/
theorem isGreatest_boundariesUpTo (text : List Char) (offset : Nat) :
    IsGreatest (boundariesUpTo text offset) (byteLength (beginning offset text)) := by
  have hfront := beginning_prefix offset text
  refine ⟨⟨isBoundary_of_isPrefix hfront,?_⟩,?_⟩
  · exact Nat.le_min.mpr ⟨byteLength_beginning_le offset text,byteLength_le_of_isPrefix hfront⟩
  · rintro b ⟨hb,hle⟩
    have hmore := isPrefix_beginning_of_le (Nat.le_min.mp hle).1 text
    have hbytes := byteLength_le_of_isPrefix hmore
    rwa [byteLength_beginning_of_isBoundary hb] at hbytes

/-- The boundary at which the beginning ends has the position of the offset. -/
theorem ofOffset_byteLength_beginning (text : List Char) (offset : Nat) :
    ofOffset text (byteLength (beginning offset text)) = ofOffset text offset := by
  obtain ⟨rest,hrest⟩ := beginning_prefix offset text
  have hposition := ofOffset_byteLength (beginning offset text) rest
  rwa [hrest] at hposition

/-- A position where more is passed is not before one where less is. -/
theorem monotone_ofOffset (text : List Char) : Monotone (ofOffset text) := by
  intro m n hmn
  obtain ⟨more,hmore⟩ := isPrefix_beginning_of_le hmn text
  rw [ofOffset,ofOffset,←hmore,after_append]
  exact le_after ..

/-- From one boundary to a later one there is at least one character to pass. -/
theorem strictMonoOn_ofOffset (text : List Char) :
    StrictMonoOn (ofOffset text) {b | IsBoundary text b} := by
  intro b hb d hd hlt
  obtain ⟨more,hmore⟩ := isPrefix_beginning_of_le (Nat.le_of_lt hlt) text
  have hbytes := byteLength_beginning_of_isBoundary hd
  rw [←hmore,byteLength_append,byteLength_beginning_of_isBoundary hb] at hbytes
  have hne : more ≠ [] := by
    rintro rfl
    rw [byteLength_nil] at hbytes
    omega
  rw [ofOffset,ofOffset,←hmore,after_append]
  exact lt_after _ hne

/-- Boundaries compare as their positions do. -/
theorem compare_ofOffset {text : List Char} {b d : Nat} (hb : IsBoundary text b)
    (hd : IsBoundary text d) :
    compare (ofOffset text b) (ofOffset text d) = compare b d := by
  have hpositions := compares_compare (ofOffset text b) (ofOffset text d)
  exact ((compare_iff b d).mpr (((strictMonoOn_ofOffset text).compares hb hd).mp hpositions)).symm

end Position

/-- A token begins at a boundary, the end too. -/
theorem isBoundary_start {text : String} {t : Token} (h : t ∈ allTokens text) :
    IsBoundary text.toList t.span.start :=
  ((tiles text).boundaries t h).1

/-- Passing texts is an action of their concatenation on positions. The position of an
offset is that of the greatest boundary up to it, which passing the characters in front of that
boundary gives. Positions do not go back where offsets go on, and from
each boundary to every later one they go on. So no two boundaries have one position, and
tokens compare by their positions as they do by the bytes at which they begin. -/
theorem ofOffset_embeds_boundaries (text : String) :
    (∀ p : Position, p.after [] = p ∧
      ∀ first second, p.after (first++second) = (p.after first).after second) ∧
    (∀ offset, ∃ b, IsGreatest (boundariesUpTo text.toList offset) b ∧
      Position.ofOffset text.toList offset = Position.ofOffset text.toList b) ∧
    (∀ front rest, text.toList = front++rest →
      Position.ofOffset text.toList (byteLength front) = Position.start.after front) ∧
    Monotone (Position.ofOffset text.toList) ∧
    StrictMonoOn (Position.ofOffset text.toList) {b | IsBoundary text.toList b} ∧
    Set.InjOn (Position.ofOffset text.toList) {b | IsBoundary text.toList b} ∧
    ∀ t ∈ allTokens text, ∀ u ∈ allTokens text,
      compare t.position u.position = compare t.span.start u.span.start := by
  have hstrict := Position.strictMonoOn_ofOffset text.toList
  refine ⟨fun p => ⟨Position.after_nil p,Position.after_append p⟩,fun offset => ?_,?_,
    Position.monotone_ofOffset _,hstrict,hstrict.injOn,fun t ht u hu => ?_⟩
  · exact ⟨_,Position.isGreatest_boundariesUpTo _ offset,
      (Position.ofOffset_byteLength_beginning _ offset).symm⟩
  · intro front rest htext
    rw [htext,Position.ofOffset_byteLength]
  · rw [(liesIn_of_mem_allTokens ht).ofOffset,(liesIn_of_mem_allTokens hu).ofOffset,
      Position.compare_ofOffset (isBoundary_start ht) (isBoundary_start hu)]

/-- A character of two bytes has one position with the offset within it, and the newline
behind it, at which the column goes back, lies before the name on the next line. -/
theorem ofOffset_embeds_boundaries_multibyte :
    Position.ofOffset "é\nb".toList 2 = Position.start.after ['é'] ∧
    Position.ofOffset "é\nb".toList 1 ≤ Position.ofOffset "é\nb".toList 2 ∧
    IsBoundary "é\nb".toList 2 ∧ IsBoundary "é\nb".toList 3 ∧
    Position.ofOffset "é\nb".toList 2 < Position.ofOffset "é\nb".toList 3 ∧
    ⟨.error,"é",⟨0,2⟩,⟨1,1⟩⟩ ∈ allTokens "é\nb" ∧
    ⟨.nonTerminal,"b",⟨3,4⟩,⟨2,1⟩⟩ ∈ allTokens "é\nb" ∧
    compare (⟨1,1⟩ : Position) ⟨2,1⟩ = compare 0 3 := by
  have hnewline : IsBoundary "é\nb".toList 2 := ⟨['é'],['\n','b'],rfl,rfl⟩
  have hname : IsBoundary "é\nb".toList 3 := ⟨['é','\n'],['b'],rfl,rfl⟩
  have hstray : (⟨.error,"é",⟨0,2⟩,⟨1,1⟩⟩ : Token) ∈ allTokens "é\nb" := by decide +kernel
  have htoken : (⟨.nonTerminal,"b",⟨3,4⟩,⟨2,1⟩⟩ : Token) ∈ allTokens "é\nb" := by decide +kernel
  obtain ⟨_,_,hpassed,hmonotone,hstrict,_,hcompare⟩ := ofOffset_embeds_boundaries "é\nb"
  exact ⟨hpassed ['é'] ['\n','b'] rfl,hmonotone (by decide),hnewline,hname,
    hstrict hnewline hname (by decide),hstray,htoken,hcompare _ hstray _ htoken⟩

end GrammarCensus
