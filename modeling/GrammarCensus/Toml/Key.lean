import GrammarCensus.Toml.Text

/-!
# Keys of TOML

A key names a place in nested tables, from the outermost one inwards, with dots
between the names. Each name is written bare or as a text on one line. A key
passes through a limited number of tables.
-/

namespace GrammarCensus.Toml

/-- A dotted key, or a single one: the tables that it passes through and the key
in the last of them. -/
structure Key where
  /-- The tables on the way, the outermost one first. -/
  parents : List String
  /-- The key in the innermost table. -/
  name : String
deriving Repr, DecidableEq, Inhabited

/-- The names of a key, from the outermost to the innermost. -/
def Key.path (k : Key) : List String :=
  k.parents++[k.name]

/-- How deep the tables that one key names, or the values in one value, nest at
most. -/
def depthLimit : Nat := 79

/-- Reads a key without dots: bare, or a text on one line. -/
def simpleKey? : List Char → Option (String × List Char)
  | [] => none
  | c::rest =>
    if c = '"' then (basic? rest).map fun (text,rest) => (String.ofList text,rest)
    else if c = '\'' then (literal? rest).map fun (text,rest) => (String.ofList text,rest)
    else if isBareKeyChar c then
      some (String.ofList (c::rest.takeWhile isBareKeyChar),rest.dropWhile isBareKeyChar)
    else none

/-- A key without dots takes at least one character. -/
theorem simpleKey?_length {text rest : List Char} {name : String}
    (h : simpleKey? text = some (name,rest)) : rest.length < text.length := by
  unfold simpleKey? at h
  split at h
  · cases h
  · split at h
    · obtain ⟨⟨_,_⟩,h,he⟩ := Option.map_eq_some_iff.mp h
      cases he
      exact Nat.lt_succ_of_lt (basic?_length h)
    · split at h
      · obtain ⟨⟨_,_⟩,h,he⟩ := Option.map_eq_some_iff.mp h
        cases he
        exact Nat.lt_succ_of_lt (literal?_length h)
      · split at h
        · cases h
          exact Nat.lt_succ_of_le (List.dropWhile_suffix isBareKeyChar).length_le
        · cases h

/-- Reads a name of a key with the blanks around it. -/
def keyName? (text : List Char) : Option (String × List Char) :=
  (simpleKey? (skipSpaces text)).map fun (name,rest) => (name,skipSpaces rest)

/-- A name of a key takes at least one character. -/
theorem keyName?_length {text rest : List Char} {name : String}
    (h : keyName? text = some (name,rest)) : rest.length < text.length := by
  obtain ⟨⟨_,rest'⟩,hk,he⟩ := Option.map_eq_some_iff.mp h
  cases he
  have h1 := simpleKey?_length hk
  have h2 := skipSpaces_length text
  have h3 := skipSpaces_length rest'
  omega

/-- Reads a key with the blanks around it. Dots separate its names. -/
def dottedKey? (text : List Char) : Option (Key × List Char) :=
  match h : keyName? text with
  | none => none
  | some (name,'.' :: rest) =>
    have := keyName?_length h
    (dottedKey? rest).map fun (key,rest) => (⟨name::key.parents,key.name⟩,rest)
  | some (name,rest) => some (⟨[],name⟩,rest)
termination_by text.length
decreasing_by
  simp only [List.length_cons] at this
  omega

/-- A key takes at least one character. -/
theorem dottedKey?_length {text rest : List Char} {key : Key}
    (h : dottedKey? text = some (key,rest)) : rest.length < text.length := by
  fun_induction dottedKey? text generalizing key with
  | case1 => cases h
  | case2 _ _ _ _ hlt ih =>
    obtain ⟨⟨_,_⟩,h,he⟩ := Option.map_eq_some_iff.mp h
    cases he
    have := ih h
    simp only [List.length_cons] at hlt
    omega
  | case3 _ _ _ _ hn => cases h; exact keyName?_length hn

/-- A key goes on behind a dot. -/
theorem dottedKey?_of_dot {text others : List Char} {name : String}
    (h : keyName? text = some (name,'.' :: others)) : dottedKey? text =
      (dottedKey? others).map fun (key,rest) => (⟨name::key.parents,key.name⟩,rest) := by
  rw [dottedKey?]
  split
  next hnone => rw [h] at hnone; cases hnone
  next hdot =>
    rw [h] at hdot
    cases hdot
    rfl
  next hend hother =>
    rw [h] at hother
    cases hother
    exact (hend _ rfl).elim

/-- Without a dot it is complete. -/
theorem dottedKey?_of_end {text rest : List Char} {name : String}
    (h : keyName? text = some (name,rest)) (hend : ∀ others, rest = '.' :: others → False) :
    dottedKey? text = some (⟨[],name⟩,rest) := by
  rw [dottedKey?]
  split
  next hnone => rw [h] at hnone; cases hnone
  next hdot =>
    rw [h] at hdot
    cases hdot
    exact (hend _ rfl).elim
  next hother =>
    rw [h] at hother
    cases hother
    rfl

/-- Reads a key, which passes through fewer tables than values may nest. -/
def key? (text : List Char) : Option (Key × List Char) := do
  let (key,rest) ← dottedKey? text
  guard (key.parents.length < depthLimit)
  return (key,rest)

/-- A key within the limit takes at least one character. -/
theorem key?_length {text rest : List Char} {key : Key}
    (h : key? text = some (key,rest)) : rest.length < text.length := by
  rw [key?] at h
  obtain ⟨_,hdotted,h⟩ := Option.bind_eq_some_iff.mp h
  obtain ⟨_,_,h⟩ := Option.bind_eq_some_iff.mp h
  obtain ⟨_,rfl⟩ := Prod.mk.inj (Option.some.inj h)
  exact dottedKey?_length hdotted

end GrammarCensus.Toml
