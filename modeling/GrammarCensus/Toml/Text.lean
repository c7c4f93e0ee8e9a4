import GrammarCensus.Toml.Lexis

/-!
# Reading texts in TOML

The four written forms of a text: between single or triple quotes, and with
escapes, in double quotes, or literally, in single ones. Forms with triple
quotes go over several lines; a newline right behind their opening quotes is no
part of the text, and every line end in them reads as a newline. Each reader
takes what follows the opening quotes and gives the text and what follows the
closing ones, or nothing where the form is broken.
-/

namespace GrammarCensus.Toml

/-- What an escape letter stands for. -/
def escapes : List (Char × Char) :=
  [('b','\x08'),('t','\t'),('n','\n'),('f','\x0c'),('r','\r'),('"','"'),('\\','\\')]

/-- The value of a hexadecimal digit. -/
def hexDigit? (c : Char) : Option Nat :=
  if isDigit c then some (c.toNat - '0'.toNat)
  else if 'a' ≤ c ∧ c ≤ 'f' then some (c.toNat - 'a'.toNat+10)
  else if 'A' ≤ c ∧ c ≤ 'F' then some (c.toNat - 'A'.toNat+10)
  else none

/-- The number that digits to a base stand for. -/
def digitsValue (base : Nat) (digits : List Nat) : Nat :=
  digits.foldl (fun n d => n*base+d) 0

/-- Reads a code point of `width` hexadecimal digits. Surrogates and numbers
beyond the last code point are no characters. -/
def codePoint? (width : Nat) (text : List Char) : Option (Char × List Char) := do
  guard (width ≤ text.length)
  let digits ← (text.take width).mapM hexDigit?
  let n := digitsValue 16 digits
  guard n.isValidChar
  return (Char.ofNat n,text.drop width)

/-- Reads what follows a backslash that stands for a character. -/
def escape? : List Char → Option (Char × List Char)
  | [] => none
  | 'u' :: rest => codePoint? 4 rest
  | 'U' :: rest => codePoint? 8 rest
  | c::rest => (escapes.lookup c).map (·,rest)

/-- A code point leaves at most what was there. -/
theorem codePoint?_length {width : Nat} {text rest : List Char} {c : Char}
    (h : codePoint? width text = some (c,rest)) : rest.length ≤ text.length := by
  rw [codePoint?] at h
  obtain ⟨_,_,h⟩ := Option.bind_eq_some_iff.mp h
  obtain ⟨_,_,h⟩ := Option.bind_eq_some_iff.mp h
  obtain ⟨_,_,h⟩ := Option.bind_eq_some_iff.mp h
  obtain ⟨_,rfl⟩ := Prod.mk.inj (Option.some.inj h)
  simp

/-- An escape takes at least one character. -/
theorem escape?_length {text rest : List Char} {c : Char}
    (h : escape? text = some (c,rest)) : rest.length < text.length := by
  unfold escape? at h
  split at h
  · simp at h
  · exact Nat.lt_succ_of_le (codePoint?_length h)
  · exact Nat.lt_succ_of_le (codePoint?_length h)
  · simp only [Option.map_eq_some_iff,Prod.mk.injEq] at h
    obtain ⟨_,_,_,rfl⟩ := h
    simp

/-- Puts one more character in front of a text that has been read. -/
def withFirst (c : Char) (r : Option (List Char × List Char)) :
    Option (List Char × List Char) :=
  r.map fun (text,rest) => (c::text,rest)

/-- A text with one more character leaves what the text itself leaves. -/
theorem withFirst_eq_some {c : Char} {r : Option (List Char × List Char)}
    {text rest : List Char} (h : withFirst c r = some (text,rest)) :
    ∃ text', text = c::text' ∧ r = some (text',rest) := by
  simp only [withFirst,Option.map_eq_some_iff,Prod.mk.injEq] at h
  obtain ⟨⟨text',rest'⟩,hr,rfl,rfl⟩ := h
  exact ⟨text',rfl,hr⟩

/-- Reads the rest of a text in double quotes. -/
def basic? (text : List Char) : Option (List Char × List Char) :=
  match text with
  | [] => none
  | c::rest =>
    if c = '"' then some ([],rest)
    else if c = '\\' then
      match h : escape? rest with
      | none => none
      | some (d,rest') =>
        have := escape?_length h
        withFirst d (basic? rest')
    else if isPlain c then withFirst c (basic? rest)
    else none
termination_by text.length
decreasing_by
  · simp only [List.length_cons]; omega
  · simp

/-- A text in double quotes takes at least its closing quote. -/
theorem basic?_length {text content rest : List Char}
    (h : basic? text = some (content,rest)) : rest.length < text.length := by
  fun_induction basic? text generalizing content with
  | case1 => cases h
  | case2 => cases h; simp
  | case3 => cases h
  | case4 rest0 _ d rest' he hlt ih =>
    obtain ⟨_,_,h⟩ := withFirst_eq_some h
    have := ih h
    simp only [List.length_cons]
    omega
  | case5 c rest0 _ _ _ ih =>
    obtain ⟨_,_,h⟩ := withFirst_eq_some h
    exact Nat.lt_succ_of_lt (ih h)
  | case6 => cases h

/-- Reads the rest of a text in single quotes. -/
def literal? (text : List Char) : Option (List Char × List Char) :=
  match text with
  | [] => none
  | c::rest =>
    if c = '\'' then some ([],rest)
    else if isPlain c then withFirst c (literal? rest)
    else none

/-- A text in single quotes takes at least its closing quote. -/
theorem literal?_length {text content rest : List Char}
    (h : literal? text = some (content,rest)) : rest.length < text.length := by
  fun_induction literal? text generalizing content with
  | case1 => cases h
  | case2 => cases h; simp
  | case3 c rest0 _ _ ih =>
    obtain ⟨_,_,h⟩ := withFirst_eq_some h
    exact Nat.lt_succ_of_lt (ih h)
  | case4 => cases h

/-- Reads the three closing quotes of a text over several lines, together with
up to two quotes before them that belong to the text. -/
def closing? (quote : Char) (text : List Char) : Option (List Char × List Char) :=
  if text.take 3 = [quote,quote,quote] then
    let more := min 2 ((text.drop 3).takeWhile (· = quote)).length
    some (List.replicate more quote,text.drop (3+more))
  else none

/-- Closing quotes take at least themselves. -/
theorem closing?_length {quote : Char} {text content rest : List Char}
    (h : closing? quote text = some (content,rest)) : rest.length < text.length := by
  simp only [closing?] at h
  split at h
  · next ht =>
    cases h
    have := congrArg List.length ht
    simp only [List.length_take,List.length_cons,List.length_nil] at this
    simp only [List.length_drop]
    omega
  · cases h

/-- Leaves out a backslash's line end and all blanks and line ends behind it. -/
def skipBlankLines : List Char → List Char
  | '\n' :: rest => skipBlankLines rest
  | '\r' :: '\n' :: rest => skipBlankLines rest
  | ' ' :: rest => skipBlankLines rest
  | '\t' :: rest => skipBlankLines rest
  | text => text

/-- Reads what follows a backslash at the end of a line. -/
def continuation? (text : List Char) : Option (List Char) :=
  (skipNewline? (skipSpaces text)).map skipBlankLines

/-- Leaving out blanks and line ends adds nothing. -/
theorem skipBlankLines_length (text : List Char) :
    (skipBlankLines text).length ≤ text.length := by
  fun_induction skipBlankLines text with
  | case1 rest ih => exact Nat.le_succ_of_le ih
  | case2 rest ih => exact Nat.le_succ_of_le (Nat.le_succ_of_le ih)
  | case3 rest ih => exact Nat.le_succ_of_le ih
  | case4 rest ih => exact Nat.le_succ_of_le ih
  | case5 => exact Nat.le_refl _

/-- A continued line takes at least its line end. -/
theorem continuation?_length {text rest : List Char}
    (h : continuation? text = some rest) : rest.length < text.length := by
  obtain ⟨mid,hm,rfl⟩ := Option.map_eq_some_iff.mp h
  have h1 := skipNewline?_length hm
  have h2 := skipBlankLines_length mid
  have h3 := skipSpaces_length text
  omega

/-- Reads the rest of a text in three double quotes. -/
def basicBlock? (text : List Char) : Option (List Char × List Char) :=
  match text with
  | [] => none
  | c::rest =>
    if c = '"' then
      match closing? '"' (c::rest) with
      | some closed => some closed
      | none => withFirst c (basicBlock? rest)
    else if c = '\\' then
      match h : escape? rest with
      | some (d,rest') =>
        have := escape?_length h
        withFirst d (basicBlock? rest')
      | none =>
        match h' : continuation? rest with
        | some rest' =>
          have := continuation?_length h'
          basicBlock? rest'
        | none => none
    else if isPlain c || c = '\n' then withFirst c (basicBlock? rest)
    else if c = '\r' ∧ rest.head? = some '\n' then withFirst '\n' (basicBlock? rest.tail)
    else none
termination_by text.length
decreasing_by
  · simp
  · simp only [List.length_cons]; omega
  · simp only [List.length_cons]; omega
  · simp
  · simp only [List.length_tail,List.length_cons]; omega

/-- A text in three double quotes takes at least its closing quotes. -/
theorem basicBlock?_length {text content rest : List Char}
    (h : basicBlock? text = some (content,rest)) : rest.length < text.length := by
  fun_induction basicBlock? text generalizing content with
  | case1 => cases h
  | case2 _ _ hc => cases h; exact closing?_length hc
  | case3 _ _ ih =>
    obtain ⟨_,_,h⟩ := withFirst_eq_some h
    exact Nat.lt_succ_of_lt (ih h)
  | case4 _ _ _ _ _ hlt ih =>
    obtain ⟨_,_,h⟩ := withFirst_eq_some h
    have := ih h
    simp only [List.length_cons]
    omega
  | case5 _ _ _ _ _ hlt ih =>
    have := ih h
    simp only [List.length_cons]
    omega
  | case6 => cases h
  | case7 _ _ _ _ _ ih =>
    obtain ⟨_,_,h⟩ := withFirst_eq_some h
    exact Nat.lt_succ_of_lt (ih h)
  | case8 _ _ _ _ _ _ ih =>
    obtain ⟨_,_,h⟩ := withFirst_eq_some h
    have := ih h
    simp only [List.length_tail] at this
    simp only [List.length_cons]
    omega
  | case9 => cases h

/-- Reads the rest of a text in three single quotes. -/
def literalBlock? (text : List Char) : Option (List Char × List Char) :=
  match text with
  | [] => none
  | c::rest =>
    if c = '\'' then
      match closing? '\'' (c::rest) with
      | some closed => some closed
      | none => withFirst c (literalBlock? rest)
    else if isPlain c || c = '\n' then withFirst c (literalBlock? rest)
    else if c = '\r' ∧ rest.head? = some '\n' then withFirst '\n' (literalBlock? rest.tail)
    else none
termination_by text.length
decreasing_by
  · simp
  · simp
  · simp only [List.length_tail,List.length_cons]; omega

/-- A text in three single quotes takes at least its closing quotes. -/
theorem literalBlock?_length {text content rest : List Char}
    (h : literalBlock? text = some (content,rest)) : rest.length < text.length := by
  fun_induction literalBlock? text generalizing content with
  | case1 => cases h
  | case2 _ _ hc => cases h; exact closing?_length hc
  | case3 _ _ ih =>
    obtain ⟨_,_,h⟩ := withFirst_eq_some h
    exact Nat.lt_succ_of_lt (ih h)
  | case4 _ _ _ _ ih =>
    obtain ⟨_,_,h⟩ := withFirst_eq_some h
    exact Nat.lt_succ_of_lt (ih h)
  | case5 _ _ _ _ _ ih =>
    obtain ⟨_,_,h⟩ := withFirst_eq_some h
    have := ih h
    simp only [List.length_tail] at this
    simp only [List.length_cons]
    omega
  | case6 => cases h

/-- Leaves out a line end right behind opening quotes. -/
def skipFirstNewline (text : List Char) : List Char :=
  (skipNewline? text).getD text

/-- Leaving out a line end adds nothing. -/
theorem skipFirstNewline_length (text : List Char) :
    (skipFirstNewline text).length ≤ text.length := by
  unfold skipFirstNewline
  cases h : skipNewline? text with
  | none => exact Nat.le_refl _
  | some rest => exact Nat.le_of_lt (skipNewline?_length h)

/-- Reads a text in any of the four forms, with its quotes. -/
def text? : List Char → Option (List Char × List Char)
  | '"' :: '"' :: '"' :: rest => basicBlock? (skipFirstNewline rest)
  | '"' :: rest => basic? rest
  | '\'' :: '\'' :: '\'' :: rest => literalBlock? (skipFirstNewline rest)
  | '\'' :: rest => literal? rest
  | _ => none

/-- A text takes at least its quotes. -/
theorem text?_length {text content rest : List Char}
    (h : text? text = some (content,rest)) : rest.length < text.length := by
  unfold text? at h
  split at h
  · next rest' =>
    have h1 := basicBlock?_length h
    have h2 := skipFirstNewline_length rest'
    simp only [List.length_cons]
    omega
  · exact Nat.lt_succ_of_lt (basic?_length h)
  · next rest' =>
    have h1 := literalBlock?_length h
    have h2 := skipFirstNewline_length rest'
    simp only [List.length_cons]
    omega
  · exact Nat.lt_succ_of_lt (literal?_length h)
  · cases h

end GrammarCensus.Toml
