import GrammarCensus.Toml.ValueReader

/-!
# Lines of TOML

What the lines of a document say. A line may go on over several lines of text,
where a value does. Readers take the text that is left and give what they read
and what is left after it, or nothing where the text is broken.
-/

namespace GrammarCensus.Toml

/-- A line of a document. -/
inductive Line
  /-- A line without words. -/
  | blank
  /-- A key with its value. -/
  | entry (key : Key) (value : Value)
  /-- The header of a table. -/
  | header (key : Key)
  /-- The header that tables share. -/
  | sharedHeader (key : Key)
deriving Inhabited

/-- Reads the words of a line, up to the blanks and the comment at its end. -/
def line? (text : List Char) : Option (Line × List Char) :=
  match text with
  | [] => some (.blank,[])
  | '[' :: '[' :: rest => do
    let (key,rest) ← key? rest
    let rest ← sign? ']' rest
    let rest ← sign? ']' rest
    return (.sharedHeader key,rest)
  | '[' :: rest => do
    let (key,rest) ← key? rest
    let rest ← sign? ']' rest
    return (.header key,rest)
  | c::_ =>
    if c = '#' ∨ c = '\n' ∨ c = '\r' then some (.blank,text)
    else (ValueReader.limited.assignment? text).map fun ((key,value),rest) =>
      (.entry key value,rest)

/-- Reading the words of a line adds nothing. -/
theorem line?_length {text rest : List Char} {line : Line}
    (h : line? text = some (line,rest)) : rest.length ≤ text.length := by
  unfold line? at h
  split at h
  · cases h; exact Nat.le_refl _
  · simp only [Option.bind_eq_bind,Option.bind_eq_some_iff,Option.pure_def,
      Option.some.injEq,Prod.mk.injEq] at h
    obtain ⟨⟨_,rest1⟩,hk,rest2,hs,_,hs',_,rfl⟩ := h
    have h1 := key?_length hk
    have h2 : rest2.length < rest1.length := sign?_length hs
    have h3 := sign?_length hs'
    simp only [List.length_cons]
    omega
  · simp only [Option.bind_eq_bind,Option.bind_eq_some_iff,Option.pure_def,
      Option.some.injEq,Prod.mk.injEq] at h
    obtain ⟨⟨_,rest1⟩,hk,rest2,hs,_,rfl⟩ := h
    have h1 := key?_length hk
    have h2 : rest2.length < rest1.length := sign?_length hs
    simp only [List.length_cons]
    omega
  · split at h
    · cases h; exact Nat.le_refl _
    · obtain ⟨⟨⟨_,_⟩,_⟩,ha,he⟩ := Option.map_eq_some_iff.mp h
      cases he
      exact Nat.le_of_lt (ValueReader.assignment?_length ha)

/-- Reads the lines of a document. -/
def lines? (text : List Char) : Option (List Line) :=
  match h : line? (skipSpaces text) with
  | none => none
  | some (line,rest) =>
    match h' : skipLineEnd? rest with
    | none => none
    | some [] => some [line]
    | some (c::more) =>
      have : (c::more).length < text.length := by
        have h1 := skipSpaces_length text
        have h2 := line?_length h
        have h3 := skipLineEnd?_length h' (List.cons_ne_nil c more)
        omega
      (lines? (c::more)).map (line::·)
termination_by text.length

end GrammarCensus.Toml
