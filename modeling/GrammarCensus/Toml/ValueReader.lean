import GrammarCensus.Toml.Datetime
import GrammarCensus.Toml.Number
import GrammarCensus.Toml.Value

/-!
# Reading values of TOML

How values are written: texts, words, arrays and tables in braces. A reader of
values takes the text that is left and gives a value and what is left after it,
which is never more than there was. Arrays and tables hold what a given reader
reads, so that a reader for values of some depth is built from one for values
of less depth.
-/

namespace GrammarCensus.Toml

/-- Reads a word of scalar characters. A date takes the time behind a single
space along. -/
def scalarWord (text : List Char) : List Char × List Char :=
  let word := text.takeWhile isScalarChar
  let rest := text.dropWhile isScalarChar
  match rest with
  | ' ' :: d :: more =>
    if date? word = some [] ∧ isDigit d then
      (word++[' ']++(d::more).takeWhile isScalarChar,(d::more).dropWhile isScalarChar)
    else (word,rest)
  | _ => (word,rest)

/-- A word and what follows it are no longer than the text. -/
theorem scalarWord_length (text : List Char) :
    (scalarWord text).2.length ≤ text.length := by
  have h := (List.dropWhile_suffix (l := text) isScalarChar).length_le
  simp only [scalarWord]
  split
  · next d more hr =>
    split
    · have h' := (List.dropWhile_suffix (l := d::more) isScalarChar).length_le
      rw [hr] at h
      simp only [List.length_cons] at h h' ⊢
      omega
    · exact h
  · exact h

/-- The value that a word stands for. -/
def scalar? (word : List Char) : Option Value :=
  if word = ['t','r','u','e'] then some (.boolean true)
  else if word = ['f','a','l','s','e'] then some (.boolean false)
  else if isDatetime word then some (.datetime (String.ofList word))
  else if isFloat word then some (.float (String.ofList word))
  else (integer? word).map .integer

/-- Reads a value that holds no other ones. -/
def simpleValue? (text : List Char) : Option (Value × List Char) :=
  if text.head? = some '"' ∨ text.head? = some '\'' then
    (text? text).map fun (content,rest) => (.string (String.ofList content),rest)
  else
    let (word,rest) := scalarWord text
    (scalar? word).map (·,rest)

/-- Reading a value that holds no other ones adds nothing. -/
theorem simpleValue?_length {text rest : List Char} {value : Value}
    (h : simpleValue? text = some (value,rest)) : rest.length ≤ text.length := by
  unfold simpleValue? at h
  split at h
  · obtain ⟨⟨_,_⟩,h,he⟩ := Option.map_eq_some_iff.mp h
    cases he
    exact Nat.le_of_lt (text?_length h)
  · obtain ⟨_,_,he⟩ := Option.map_eq_some_iff.mp h
    cases he
    exact scalarWord_length text

/-- A reader of values. -/
structure ValueReader where
  /-- Reads a value. -/
  read? : List Char → Option (Value × List Char)
  /-- Reading a value adds nothing to the text. -/
  length_le : ∀ {text rest : List Char} {value : Value},
    read? text = some (value,rest) → rest.length ≤ text.length

namespace ValueReader

/-- Reads the values that hold no other ones. -/
def simple : ValueReader :=
  ⟨simpleValue?,simpleValue?_length⟩

/-- The reader of simple values stands for a reader that is not given. -/
instance : Inhabited ValueReader :=
  ⟨simple⟩

/-- Reads the elements of an array up to its closing bracket. A comma may follow
the last one. -/
def elements? (item : ValueReader) (text : List Char) :
    Option (List Value × List Char) :=
  match h : skipGaps text with
  | ']' :: rest => some ([],rest)
  | start =>
    match h' : item.read? start with
    | none => none
    | some (value,rest) =>
      match h'' : skipGaps rest with
      | ',' :: more =>
        have : more.length < text.length := by
          have h1 := skipGaps_length text
          have h2 := item.length_le h'
          have h3 := skipGaps_length rest
          rw [h] at h1
          rw [h'',List.length_cons] at h3
          omega
        (elements? item more).map fun (values,rest) => (value::values,rest)
      | ']' :: more => some ([value],more)
      | _ => none
termination_by text.length

/-- The elements of an array take at least its closing bracket. -/
theorem elements?_length {item : ValueReader} {text rest : List Char} {values : List Value}
    (h : elements? item text = some (values,rest)) : rest.length < text.length := by
  fun_induction elements? item text generalizing values with
  | case1 text rest' hs =>
    cases h
    have := skipGaps_length text
    rw [hs,List.length_cons] at this
    exact this
  | case2 => cases h
  | case3 _ _ _ _ _ _ _ hlt ih =>
    obtain ⟨⟨_,_⟩,h,he⟩ := Option.map_eq_some_iff.mp h
    cases he
    have := ih h
    omega
  | case4 text value rest' more hg _ hr =>
    cases h
    have h1 := skipGaps_length text
    have h2 := item.length_le hr
    have h3 := skipGaps_length rest'
    rw [hg,List.length_cons] at h3
    omega
  | case5 => cases h

/-- Reads a key, an equals sign and a value. -/
def assignment? (item : ValueReader) (text : List Char) :
    Option ((Key × Value) × List Char) := do
  let (key,rest) ← key? text
  let rest ← sign? '=' rest
  let (value,rest) ← item.read? (skipSpaces rest)
  return ((key,value),rest)

/-- A key with its value takes at least one character. -/
theorem assignment?_length {item : ValueReader} {text rest : List Char}
    {field : Key × Value} (h : assignment? item text = some (field,rest)) :
    rest.length < text.length := by
  simp only [assignment?,Option.bind_eq_bind,Option.bind_eq_some_iff,Option.pure_def,
    Option.some.injEq,Prod.mk.injEq] at h
  obtain ⟨⟨key,rest1⟩,hk,rest2,hs,⟨value,rest3⟩,hv,rfl,rfl⟩ := h
  have h1 := key?_length hk
  have h2 : rest2.length < rest1.length := sign?_length hs
  have h3 := skipSpaces_length rest2
  have h4 : rest3.length ≤ (skipSpaces rest2).length := item.length_le hv
  change rest3.length < text.length
  omega

/-- Reads the entries of a table in braces up to its closing brace. No comma may
follow the last one. -/
def fields? (item : ValueReader) (text : List Char) :
    Option (List (Key × Value) × List Char) :=
  match h : assignment? item text with
  | none => none
  | some (field,rest) =>
    match h' : skipSpaces rest with
    | ',' :: more =>
      have : more.length < text.length := by
        have h1 := assignment?_length h
        have h2 := skipSpaces_length rest
        rw [h',List.length_cons] at h2
        omega
      (fields? item more).map fun (fields,rest) => (field::fields,rest)
    | '}' :: more => some ([field],more)
    | _ => none
termination_by text.length

/-- The entries of a table in braces take at least its closing brace. -/
theorem fields?_length {item : ValueReader} {text rest : List Char}
    {fields : List (Key × Value)} (h : fields? item text = some (fields,rest)) :
    rest.length < text.length := by
  fun_induction fields? item text generalizing fields with
  | case1 => cases h
  | case2 _ _ _ _ _ _ hlt ih =>
    obtain ⟨⟨_,_⟩,h,he⟩ := Option.map_eq_some_iff.mp h
    cases he
    have := ih h
    omega
  | case3 text field rest' ha more hs =>
    cases h
    have h1 := assignment?_length ha
    have h2 := skipSpaces_length rest'
    rw [hs,List.length_cons] at h2
    omega
  | case4 => cases h

/-- The table in braces that has the given fields, if they fit together. -/
def bracedTable? (fields : List (Key × Value)) : Option Value :=
  (fields.foldlM (fun entries field => addEntry field.1 field.2 .braces entries) []).map
    (.table .braces)

/-- Reads a table in braces, behind the opening one. -/
def braced? (item : ValueReader) (text : List Char) : Option (Value × List Char) :=
  match skipSpaces text with
  | '}' :: rest => some (.table .braces [],rest)
  | start => do
    let (fields,rest) ← item.fields? start
    let table ← bracedTable? fields
    return (table,rest)

/-- A table in braces takes at least its closing brace. -/
theorem braced?_length {item : ValueReader} {text rest : List Char} {value : Value}
    (h : braced? item text = some (value,rest)) : rest.length < text.length := by
  have hs := skipSpaces_length text
  unfold braced? at h
  split at h
  · next rest' he =>
    cases h
    rw [he,List.length_cons] at hs
    exact hs
  · simp only [Option.bind_eq_bind,Option.bind_eq_some_iff,Option.pure_def,
      Option.some.injEq,Prod.mk.injEq] at h
    obtain ⟨⟨_,rest'⟩,h,_,_,_,rfl⟩ := h
    exact Nat.lt_of_lt_of_le (fields?_length h) hs

/-- Reads a value that holds no other ones, or one that holds what `item`
reads. -/
def nestedValue? (item : ValueReader) : List Char → Option (Value × List Char)
  | '[' :: rest => (item.elements? rest).map fun (values,rest) => (.array values,rest)
  | '{' :: rest => item.braced? rest
  | text => simpleValue? text

/-- Reading a value that may hold others adds nothing. -/
theorem nestedValue?_length {item : ValueReader} {text rest : List Char} {value : Value}
    (h : nestedValue? item text = some (value,rest)) : rest.length ≤ text.length := by
  unfold nestedValue? at h
  split at h
  · obtain ⟨⟨_,_⟩,h,he⟩ := Option.map_eq_some_iff.mp h
    cases he
    exact Nat.le_succ_of_le (Nat.le_of_lt (elements?_length h))
  · exact Nat.le_succ_of_le (Nat.le_of_lt (braced?_length h))
  · exact simpleValue?_length h

/-- Reads the values that hold no other ones, and those that hold what `item`
reads. -/
def nested (item : ValueReader) : ValueReader :=
  ⟨item.nestedValue?,nestedValue?_length⟩

/-- Reads the values that nest to at most the given depth. -/
def ofDepth : Nat → ValueReader
  | 0 => simple
  | depth+1 => (ofDepth depth).nested

/-- Reads the values that a document may hold. -/
def limited : ValueReader :=
  ofDepth depthLimit

end ValueReader

end GrammarCensus.Toml
