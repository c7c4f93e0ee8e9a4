/-!
# Characters and gaps of TOML

The character classes of TOML 1.0, and what may stand between its words: spaces
and tabs within a line, comments up to the end of a line, and in arrays whole
lines of either. A carriage return counts only as part of a line end. Every
function here takes the text that is left and gives what is left after it. The
main statements say that this is never more than there was.
-/

namespace GrammarCensus.Toml

/-- The blank characters within a line. -/
def isSpace (c : Char) : Bool :=
  c = ' ' || c = '\t'

/-- The characters that need no escape in a comment or a text: the tab, and
everything else but the control characters. -/
def isPlain (c : Char) : Bool :=
  c = '\t' || (decide (0x20 ≤ c.toNat) && c ≠ '\x7f')

/-- The digits of decimal numbers. -/
def isDigit (c : Char) : Bool :=
  decide ('0' ≤ c) && decide (c ≤ '9')

/-- The characters of a key without quotes. -/
def isBareKeyChar (c : Char) : Bool :=
  isDigit c || (decide ('a' ≤ c) && decide (c ≤ 'z')) ||
    (decide ('A' ≤ c) && decide (c ≤ 'Z')) || c = '_' || c = '-'

/-- The characters of numbers, dates, times and the words for truth values. -/
def isScalarChar (c : Char) : Bool :=
  isBareKeyChar c || c = '+' || c = '.' || c = ':'

/-- Reads one given character. -/
def sign? (s : Char) : List Char → Option (List Char)
  | [] => none
  | c::rest => if c = s then some rest else none

/-- One given character takes its place. -/
theorem sign?_length {s : Char} {text rest : List Char} (h : sign? s text = some rest) :
    rest.length < text.length := by
  unfold sign? at h
  split at h
  · cases h
  · split at h
    · cases h; simp
    · cases h

/-- Leaves out blank characters. -/
def skipSpaces (text : List Char) : List Char :=
  text.dropWhile isSpace

/-- Leaving out blank characters adds nothing. -/
theorem skipSpaces_length (text : List Char) : (skipSpaces text).length ≤ text.length :=
  (List.dropWhile_suffix isSpace).length_le

/-- Leaves out a line end, if there is one. -/
def skipNewline? : List Char → Option (List Char)
  | '\n' :: rest => some rest
  | '\r' :: '\n' :: rest => some rest
  | _ => none

/-- A line end takes at least one character. -/
theorem skipNewline?_length {text rest : List Char} (h : skipNewline? text = some rest) :
    rest.length < text.length := by
  unfold skipNewline? at h
  split at h
  · obtain rfl := Option.some.inj h; simp
  · obtain rfl := Option.some.inj h; simp only [List.length_cons]; omega
  · simp at h

/-- Leaves out a comment, if there is one. -/
def skipComment : List Char → List Char
  | '#' :: rest => rest.dropWhile isPlain
  | text => text

/-- Leaving out a comment adds nothing. -/
theorem skipComment_length (text : List Char) : (skipComment text).length ≤ text.length := by
  unfold skipComment
  split
  · exact Nat.le_succ_of_le (List.dropWhile_suffix isPlain).length_le
  · exact Nat.le_refl _

/-- Leaves out what may follow on a line after its last word, and the line end.
The end of the text ends a line as well. -/
def skipLineEnd? (text : List Char) : Option (List Char) :=
  match skipComment (skipSpaces text) with
  | [] => some []
  | rest => skipNewline? rest

/-- The end of a line that others follow takes at least one character. -/
theorem skipLineEnd?_length {text rest : List Char} (h : skipLineEnd? text = some rest)
    (hne : rest ≠ []) : rest.length < text.length := by
  unfold skipLineEnd? at h
  split at h
  · exact absurd (Option.some.inj h).symm hne
  · have h1 := skipNewline?_length h
    have h2 := skipComment_length (skipSpaces text)
    have h3 := skipSpaces_length text
    omega

/-- Leaves out blank characters, line ends and comments. -/
def skipGaps (text : List Char) : List Char :=
  match text with
  | [] => []
  | c::rest =>
    if isSpace c || c = '\n' then skipGaps rest
    else if c = '\r' ∧ rest.head? = some '\n' then skipGaps rest.tail
    else if c = '#' then skipGaps (rest.dropWhile isPlain)
    else c::rest
termination_by text.length
decreasing_by
  · simp
  · simp only [List.length_tail,List.length_cons]; omega
  · exact Nat.lt_succ_of_le (List.dropWhile_suffix isPlain).length_le

/-- Leaving out blank characters, line ends and comments adds nothing. -/
theorem skipGaps_length (text : List Char) : (skipGaps text).length ≤ text.length := by
  fun_induction skipGaps text with
  | case1 => exact Nat.le_refl _
  | case2 c rest h ih => exact Nat.le_succ_of_le ih
  | case3 c rest h h' ih =>
    simp only [List.length_tail] at ih
    simp only [List.length_cons]
    omega
  | case4 rest h h' ih =>
    exact Nat.le_succ_of_le (Nat.le_trans ih (List.dropWhile_suffix isPlain).length_le)
  | case5 => exact Nat.le_refl _

end GrammarCensus.Toml
