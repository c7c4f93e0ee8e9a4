/-!
# Byte spans

A span marks a stretch of a text by its first byte and the byte after its last
one, counted in the text's encoding as UTF-8. Spans may lie outside a text or
cut a character; the slice of such a span does not exist.
-/

namespace GrammarCensus

/-- The number of bytes that a text takes in UTF-8. -/
def byteLength (text : List Char) : Nat :=
  text.foldr (fun c n => c.utf8Size+n) 0

/-- The empty text takes no bytes. -/
@[simp] theorem byteLength_nil : byteLength [] = 0 := rfl

/-- A character adds its own width. -/
@[simp] theorem byteLength_cons (c : Char) (text : List Char) :
    byteLength (c::text) = c.utf8Size+byteLength text := rfl

/-- The bytes of a concatenation are those of its parts. -/
@[simp] theorem byteLength_append (first second : List Char) :
    byteLength (first++second) = byteLength first+byteLength second := by
  induction first with
  | nil => simp
  | cons c first ih => rw [List.cons_append,byteLength_cons,byteLength_cons,ih,Nat.add_assoc]

/-- A stretch of a text, in bytes. -/
structure Span where
  /-- The offset of the first byte. -/
  start : Nat
  /-- The offset just after the last byte. -/
  stop : Nat
deriving Repr, DecidableEq, Inhabited

namespace Span

/-- A span holds no bytes when it does not begin before it ends. -/
def isEmpty (s : Span) : Bool :=
  decide (s.stop ≤ s.start)

/-- Spans compare by their beginnings, and with one beginning by their ends. -/
instance : Ord Span where
  compare s t := (compare s.start t.start).then (compare s.stop t.stop)

/-- The same spans in increasing order. -/
def sort (spans : List Span) : List Span :=
  spans.mergeSort (fun s t => (compare s t).isLE)

/-- Splits a text after exactly `offset` bytes, where that is a boundary
between two characters or an end of the text. -/
def splitAt? : Nat → List Char → Option (List Char × List Char)
  | 0,text => some ([],text)
  | _+1,[] => none
  | offset+1,c::text =>
    if c.utf8Size ≤ offset+1 then
      (splitAt? (offset+1-c.utf8Size) text).map fun (front,rest) => (c::front,rest)
    else none

/-- A text can be split where two parts of it meet. -/
theorem splitAt?_append (front rest : List Char) :
    splitAt? (byteLength front) (front++rest) = some (front,rest) := by
  induction front with
  | nil => cases rest <;> rfl
  | cons c front ih =>
    obtain ⟨n,hn⟩ : ∃ n, byteLength (c::front) = n+1 := by
      have := c.utf8Size_pos
      exact ⟨byteLength (c::front)-1,by rw [byteLength_cons]; omega⟩
    have hle : c.utf8Size ≤ n+1 := by rw [←hn,byteLength_cons]; omega
    have hsub : n+1-c.utf8Size = byteLength front := by rw [←hn,byteLength_cons]; omega
    rw [hn,List.cons_append,splitAt?,if_pos hle,hsub,ih]
    rfl

/-- The part of a text that a span marks. There is none when the span ends
before it begins, leaves the text or cuts a character. -/
def slice (s : Span) (text : List Char) : Option (List Char) := do
  guard (s.start ≤ s.stop)
  let (_,rest) ← splitAt? s.start text
  let (part,_) ← splitAt? (s.stop-s.start) rest
  return part

end Span

end GrammarCensus
