import Mathlib.Data.List.Basic
import Mathlib.Data.Option.Basic
import GrammarCensus.Toml.Quote
import GrammarCensus.Toml.Text

/-!
# Quoted texts are read back

Reading a text in any of its written forms gives the text, whatever characters it
has. In the forms with escapes each character is written in a way that reads back
as it, so one lemma on a single character serves both of them. In the forms with
triple quotes the invariant of the induction takes the quotes along that have just
come: there are never three of them before the closing ones. The main statement is
that the form that is chosen for a text always holds it.
-/

namespace GrammarCensus.Toml

/-- A hexadecimal digit reads back as the number that it was written for. -/
theorem hexDigit?_upperHexDigit : ∀ n < 16, hexDigit? (upperHexDigit n) = some n := by
  decide

/-- Two digits behind two zeros read back as the character whose number they are. -/
theorem codePoint?_upperHexDigit {c : Char} (h : c.toNat < 256) (rest : List Char) :
    codePoint? 4
      ('0' :: '0' :: upperHexDigit (c.toNat/16) :: upperHexDigit (c.toNat%16) :: rest) =
        some (c,rest) := by
  have hzero : hexDigit? '0' = some 0 := by decide
  have hhigh := hexDigit?_upperHexDigit (c.toNat/16) (by omega)
  have hlow := hexDigit?_upperHexDigit (c.toNat%16) (by omega)
  have hvalue : digitsValue 16 [0,0,c.toNat/16,c.toNat%16] = c.toNat := by
    simp only [digitsValue,List.foldl_cons,List.foldl_nil]
    omega
  have hvalid : c.toNat.isValidChar := c.valid
  have hdigits : ['0','0',upperHexDigit (c.toNat/16),upperHexDigit (c.toNat%16)].mapM hexDigit? =
      some [0,0,c.toNat/16,c.toNat%16] := by
    simp [hzero,hhigh,hlow]
  rw [codePoint?,(Option.guard_eq_some' ()).mpr (by simp),List.take_succ_cons,
    List.take_succ_cons,List.take_succ_cons,List.take_succ_cons,List.take_zero,hdigits]
  dsimp only [Option.bind_eq_bind,Option.bind_some]
  rw [hvalue,(Option.guard_eq_some' ()).mpr hvalid,Char.ofNat_toNat]
  rfl

/-- Characters that need no escape are plain, but for the newline. -/
theorem isPlain_of_isControl {c : Char} (h : isControl c = false) (hc : c ≠ '\n') :
    isPlain c := by
  simp only [isControl,isPlain,Bool.or_eq_false_iff,Bool.and_eq_false_iff,Bool.or_eq_true,
    Bool.and_eq_true,decide_eq_true_iff,decide_eq_false_iff_not] at h ⊢
  by_cases htab : c = '\t'
  · exact Or.inl htab
  · refine Or.inr ⟨?_,h.2⟩
    simp [htab,hc] at h
    omega

/-- A character that needs an escape comes before those of two hexadecimal digits. -/
theorem toNat_lt_of_isControl {c : Char} (h : isControl c) : c.toNat < 256 := by
  simp only [isControl,Bool.or_eq_true,Bool.and_eq_true,decide_eq_true_iff] at h
  rcases h with h|rfl
  · omega
  · decide

/-- How one character is written between double quotes: by an escape that reads back
as it, or as it is. -/
inductive IsWritten (c : Char) : List Char → Prop
  /-- A backslash, and letters that stand for the character. -/
  | escaped {letters} : (∀ rest, escape? (letters++rest) = some (c,rest)) →
      IsWritten c ('\\' :: letters)
  /-- The character itself. -/
  | plain : isPlain c → c ≠ '"' → c ≠ '\\' → IsWritten c [c]

/-- An escape that is written stands for its character. -/
theorem isWritten_of_characterEscape? {c : Char} {e : List Char}
    (h : characterEscape? c = some e) : IsWritten c e := by
  unfold characterEscape? at h
  split_ifs at h with hbackspace htab hfeed hreturn hslash hcontrol <;>
    obtain rfl := Option.some.inj h
  · exact .escaped fun _ => by rw [hbackspace]; rfl
  · exact .escaped fun _ => by rw [htab]; rfl
  · exact .escaped fun _ => by rw [hfeed]; rfl
  · exact .escaped fun _ => by rw [hreturn]; rfl
  · exact .escaped fun _ => by rw [hslash]; rfl
  · exact .escaped fun rest => codePoint?_upperHexDigit (toNat_lt_of_isControl hcontrol) rest

/-- A character without an escape is written as it is. -/
theorem isWritten_of_characterEscape?_none {c : Char} (h : characterEscape? c = none)
    (hquote : c ≠ '"') (hnewline : c ≠ '\n') : IsWritten c [c] := by
  have hslash : c ≠ '\\' := by
    rintro rfl
    cases h
  have hcontrol : isControl c = false := by
    unfold characterEscape? at h
    split_ifs at h with _ _ _ _ hcontrol
    exact eq_false_of_ne_true hcontrol
  exact .plain (isPlain_of_isControl hcontrol hnewline) hquote hslash

/-- What is written for a character does not begin with a quote or a line end. -/
theorem IsWritten.head? {c d : Char} {e rest : List Char} (h : IsWritten c e)
    (hd : (e++rest).head? = some d) : d ≠ '"' ∧ d ≠ '\n' ∧ d ≠ '\r' := by
  cases h with
  | escaped =>
    obtain rfl := Option.some.inj hd
    decide
  | plain hplain hquote _ =>
    obtain rfl := Option.some.inj hd
    refine ⟨hquote,?_,?_⟩
    all_goals
      rintro rfl
      exact absurd hplain (by decide)

/-- An escape stands for one character of a text in double quotes. -/
theorem basic?_of_escape {text rest : List Char} {c : Char} (h : escape? text = some (c,rest)) :
    basic? ('\\' :: text) = withFirst c (basic? rest) := by
  rw [basic?,if_neg (by decide),if_pos rfl]
  split
  next hnone => rw [h] at hnone; cases hnone
  next hsome =>
    rw [h] at hsome
    cases hsome
    rfl

/-- So it does in a text in three double quotes. -/
theorem basicBlock?_of_escape {text rest : List Char} {c : Char}
    (h : escape? text = some (c,rest)) :
    basicBlock? ('\\' :: text) = withFirst c (basicBlock? rest) := by
  rw [basicBlock?,if_neg (by decide),if_pos rfl]
  split
  next hsome =>
    rw [h] at hsome
    cases hsome
    rfl
  next hnone => rw [h] at hnone; cases hnone

/-- A written character is read back in front of a text in double quotes. -/
theorem basic?_of_isWritten {c : Char} {e : List Char} (h : IsWritten c e)
    (rest : List Char) : basic? (e++rest) = withFirst c (basic? rest) := by
  cases h with
  | escaped he => exact basic?_of_escape (he rest)
  | plain hplain hquote hslash =>
    rw [List.singleton_append,basic?,if_neg hquote,if_neg hslash,if_pos hplain]

/-- Each character on one line in double quotes is written in some way. -/
theorem escapeLine_cons (c : Char) (text : List Char) :
    ∃ e, escapeLine (c::text) = e++escapeLine text ∧ IsWritten c e := by
  rw [escapeLine]
  split
  next hc => exact ⟨['\\','"'],rfl,by rw [hc]; exact .escaped fun _ => rfl⟩
  next hquote =>
    split
    next hc => exact ⟨['\\','n'],rfl,by rw [hc]; exact .escaped fun _ => rfl⟩
    next hnewline =>
      split
      next he => exact ⟨_,rfl,isWritten_of_characterEscape? he⟩
      next he => exact ⟨_,rfl,isWritten_of_characterEscape?_none he hquote hnewline⟩

/-- A text on one line in double quotes is read back. -/
theorem basic?_escapeLine (text rest : List Char) :
    basic? (escapeLine text++ '"' :: rest) = some (text,rest) := by
  induction text with
  | nil => rw [escapeLine,List.nil_append,basic?,if_pos rfl]
  | cons c text ih =>
    obtain ⟨e,he,hwritten⟩ := escapeLine_cons c text
    rw [he,List.append_assoc,basic?_of_isWritten hwritten,ih]
    rfl

/-- A text in single quotes is read back, if all its characters are plain and none is a
single quote. -/
theorem literal?_append {text : List Char} (h : ∀ c ∈ text, isPlain c ∧ c ≠ '\'')
    (rest : List Char) : literal? (text++ '\'' :: rest) = some (text,rest) := by
  induction text with
  | nil => rw [List.nil_append,literal?,if_pos rfl]
  | cons c text ih =>
    obtain ⟨⟨hplain,hquote⟩,htext⟩ := List.forall_mem_cons.mp h
    rw [List.cons_append,literal?,if_neg hquote,if_pos hplain,ih htext]
    rfl

/-- A reader of texts between triple quotes ends at three quotes, with up to two more in
front of them, and passes over fewer. -/
def EndsAtQuotes (quote : Char) (read? : List Char → Option (List Char × List Char)) : Prop :=
  ∀ rest, read? (quote::rest) = (closing? quote (quote::rest)).or (withFirst quote (read? rest))

/-- Texts in three double quotes end there. -/
theorem endsAtQuotes_basicBlock? : EndsAtQuotes '"' basicBlock? := by
  intro rest
  rw [basicBlock?,if_pos rfl]
  cases closing? '"' ('"' :: rest) <;> rfl

/-- Texts in three single quotes end there. -/
theorem endsAtQuotes_literalBlock? : EndsAtQuotes '\'' literalBlock? := by
  intro rest
  rw [literalBlock?,if_pos rfl]
  cases closing? '\'' ('\'' :: rest) <;> rfl

/-- Up to two quotes in front of the closing ones belong to the text. -/
theorem closing?_replicate {quote : Char} {run : Nat} (hrun : run ≤ 2) {rest : List Char}
    (hrest : rest.head? ≠ some quote) :
    closing? quote (List.replicate run quote++quote::quote::quote::rest) =
      some (List.replicate run quote,rest) := by
  have hstop : rest.takeWhile (· = quote) = [] := by
    cases rest with
    | nil => rfl
    | cons c rest =>
      have hc : c ≠ quote := fun h => hrest (congrArg some h)
      simp [hc]
  obtain rfl|rfl|rfl : run = 0 ∨ run = 1 ∨ run = 2 := by omega
  all_goals simp [closing?,hstop]

/-- Fewer than three quotes in a row do not close a text. -/
theorem closing?_eq_none {quote c : Char} {run : Nat} (hrun : run ≤ 2) (hc : c ≠ quote)
    (rest : List Char) : closing? quote (List.replicate run quote++c::rest) = none := by
  obtain rfl|rfl|rfl : run = 0 ∨ run = 1 ∨ run = 2 := by omega
  all_goals simp [closing?,hc]

namespace EndsAtQuotes

variable {quote : Char} {read? : List Char → Option (List Char × List Char)} {run : Nat}

/-- What has been read when only closing quotes are left, with those in front of them. -/
theorem closed (h : EndsAtQuotes quote read?) (hrun : run ≤ 2) {rest : List Char}
    (hrest : rest.head? ≠ some quote) :
    read? (List.replicate run quote++quote::quote::quote::rest) =
      some (List.replicate run quote,rest) := by
  have hclosing := closing?_replicate hrun hrest
  obtain ⟨more,hmore⟩ : ∃ more, List.replicate run quote++quote::quote::quote::rest =
      quote::more := by
    cases run with
    | zero => exact ⟨_,rfl⟩
    | succ run => exact ⟨_,rfl⟩
  rw [hmore] at hclosing ⊢
  rw [h,hclosing]
  rfl

/-- Quotes that do not close the text belong to it. -/
theorem passed (h : EndsAtQuotes quote read?) (hrun : run ≤ 2) {c : Char} (hc : c ≠ quote)
    (rest : List Char) : read? (List.replicate run quote++c::rest) =
      (read? (c::rest)).map fun (text,rest) => (List.replicate run quote++text,rest) := by
  induction run with
  | zero => simp
  | succ run ih =>
    have hnone := closing?_eq_none hrun hc rest
    rw [List.replicate_succ,List.cons_append] at hnone ⊢
    rw [h,hnone,Option.none_or,ih (by omega),withFirst,Option.map_map]
    rfl

end EndsAtQuotes

/-- Characters that a reader takes for one character of the text, whatever stands behind
them. They do not begin with the quote that ends the text. -/
structure ReadsAs (quote : Char) (read? : List Char → Option (List Char × List Char))
    (c : Char) (e : List Char) : Prop where
  /-- The characters do not begin with the quote. -/
  head : ∃ d more, e = d::more ∧ d ≠ quote
  /-- They are read as the one character. -/
  read : ∀ rest, read? (e++rest) = withFirst c (read? rest)

/-- Where a text is read from behind some characters, it is read with the character that
they stand for, and with the quotes that come right before them. -/
theorem EndsAtQuotes.read_quotes {quote c : Char}
    {read? : List Char → Option (List Char × List Char)} {e behind text rest : List Char}
    (h : EndsAtQuotes quote read?) {run : Nat} (hrun : run ≤ 2) (he : ReadsAs quote read? c e)
    (hbehind : read? behind = some (text,rest)) :
    read? (List.replicate run quote++(e++behind)) =
      some (List.replicate run quote++c::text,rest) := by
  obtain ⟨d,more,hd,hne⟩ := he.head
  have hpassed := h.passed hrun hne (more++behind)
  rw [←List.cons_append,←hd,he.read,hbehind] at hpassed
  exact hpassed

/-- A written character is read back in a text in three double quotes. -/
theorem IsWritten.readsAs {c : Char} {e : List Char} (h : IsWritten c e) :
    ReadsAs '"' basicBlock? c e := by
  cases h with
  | escaped he => exact ⟨⟨_,_,rfl,by decide⟩,fun rest => basicBlock?_of_escape (he rest)⟩
  | plain hplain hquote hslash =>
    refine ⟨⟨c,[],rfl,hquote⟩,fun rest => ?_⟩
    rw [List.singleton_append,basicBlock?,if_neg hquote,if_neg hslash,if_pos (by simp [hplain])]

/-- A newline stands for itself in a text in three double quotes. -/
theorem readsAs_newline : ReadsAs '"' basicBlock? '\n' ['\n'] := by
  refine ⟨⟨_,_,rfl,by decide⟩,fun rest => ?_⟩
  rw [List.singleton_append,basicBlock?,if_neg (by decide),if_neg (by decide),
    if_pos (by decide)]

/-- Plain characters and newlines stand for themselves in a text in three single quotes,
but for the single quote. -/
theorem readsAs_literalBlock? {c : Char} (hc : isControl c = false) (hquote : c ≠ '\'') :
    ReadsAs '\'' literalBlock? c [c] := by
  refine ⟨⟨c,[],rfl,hquote⟩,fun rest => ?_⟩
  have hchar : (isPlain c || c = '\n') = true := by
    by_cases hnewline : c = '\n'
    · simp [hnewline]
    · simp [isPlain_of_isControl hc hnewline]
  rw [List.singleton_append,literalBlock?,if_neg hquote,if_pos hchar]

/-- A third quote in a row and every other character is written in some way in a text in
three double quotes, newlines as they are, and the count of quotes starts anew. -/
theorem escapeBlock_cons {c : Char} {run : Nat} (h : c = '"' → run = 2) (text : List Char) :
    ∃ e, escapeBlock run (c::text) = e++escapeBlock 0 text ∧
      (IsWritten c e ∨ c = '\n' ∧ e = ['\n']) := by
  by_cases hc : c = '"'
  · subst hc
    refine ⟨['\\','"'],?_,Or.inl (.escaped fun _ => rfl)⟩
    rw [escapeBlock,if_pos rfl,if_pos (h rfl)]
    rfl
  · rw [escapeBlock,if_neg hc]
    split
    next he => exact ⟨_,rfl,Or.inl (isWritten_of_characterEscape? he)⟩
    next he =>
      by_cases hnewline : c = '\n'
      · exact ⟨[c],rfl,Or.inr ⟨hnewline,by rw [hnewline]⟩⟩
      · exact ⟨[c],rfl,Or.inl (isWritten_of_characterEscape?_none he hc hnewline)⟩

/-- One more quote in a row behind quotes. -/
theorem replicate_append_cons (quote : Char) (run : Nat) (text : List Char) :
    List.replicate run quote++quote::text = List.replicate (run+1) quote++text := by
  rw [List.replicate_succ',List.append_assoc]
  rfl

/-- A text in three double quotes is read back, together with the quotes that have come
right before it. -/
theorem basicBlock?_escapeBlock (text : List Char) {run : Nat} (hrun : run ≤ 2)
    {rest : List Char} (hrest : rest.head? ≠ some '"') :
    basicBlock? (List.replicate run '"'++(escapeBlock run text++ '"' :: '"' :: '"' :: rest)) =
      some (List.replicate run '"'++text,rest) := by
  induction text generalizing run with
  | nil =>
    rw [escapeBlock,List.nil_append,List.append_nil]
    exact endsAtQuotes_basicBlock?.closed hrun hrest
  | cons c text ih =>
    by_cases hc : c = '"' → run = 2
    · obtain ⟨e,he,hwritten⟩ := escapeBlock_cons hc text
      have hreads : ReadsAs '"' basicBlock? c e := by
        rcases hwritten with hwritten|⟨rfl,rfl⟩
        · exact hwritten.readsAs
        · exact readsAs_newline
      rw [he,List.append_assoc]
      exact endsAtQuotes_basicBlock?.read_quotes hrun hreads (ih (Nat.zero_le 2))
    · obtain ⟨rfl,htwo⟩ := Classical.not_imp.mp hc
      rw [escapeBlock,if_pos rfl,if_neg htwo,List.cons_append,replicate_append_cons,
        ih (by omega),replicate_append_cons]

/-- A text in three single quotes is read back, together with the quotes that have come
right before it, where no three of them come in a row and no control characters do. -/
theorem literalBlock?_append {text : List Char} (hcontrol : ∀ c ∈ text, isControl c = false)
    {run : Nat} (hrun : longestRunFrom '\'' run text ≤ 2) {rest : List Char}
    (hrest : rest.head? ≠ some '\'') :
    literalBlock? (List.replicate run '\''++(text++ '\'' :: '\'' :: '\'' :: rest)) =
      some (List.replicate run '\''++text,rest) := by
  induction text generalizing run with
  | nil =>
    rw [List.nil_append,List.append_nil]
    exact endsAtQuotes_literalBlock?.closed hrun hrest
  | cons c text ih =>
    obtain ⟨hc,htext⟩ := List.forall_mem_cons.mp hcontrol
    rw [longestRunFrom] at hrun
    split at hrun
    next hquote =>
      rw [hquote,List.cons_append,replicate_append_cons,ih htext hrun,replicate_append_cons]
    next hquote =>
      obtain ⟨hlast,hothers⟩ := Nat.max_le.mp hrun
      have hreads := readsAs_literalBlock? hc hquote
      exact endsAtQuotes_literalBlock?.read_quotes (e := [c]) hlast hreads (ih htext hothers)

/-- Behind one double quote a text on one line is read, unless two more follow. -/
theorem text?_basic {body : List Char} (h : ∀ more, body ≠ '"' :: '"' :: more) :
    text? ('"' :: body) = basic? body := by
  unfold text?
  split
  next more he => exact absurd (List.cons.inj he).2 (h more)
  next he => rw [(List.cons.inj he).2]
  next he => cases (List.cons.inj he).1
  next he => cases (List.cons.inj he).1
  next _ hbasic _ _ => exact absurd rfl (hbasic body)

/-- Behind one single quote a text on one line is read, unless two more follow. -/
theorem text?_literal {body : List Char} (h : ∀ more, body ≠ '\'' :: '\'' :: more) :
    text? ('\'' :: body) = literal? body := by
  unfold text?
  split
  next he => cases (List.cons.inj he).1
  next he => cases (List.cons.inj he).1
  next more he => exact absurd (List.cons.inj he).2 (h more)
  next he => rw [(List.cons.inj he).2]
  next _ _ _ hliteral => exact absurd rfl (hliteral body)

/-- The newline behind opening quotes is left out, and nothing else is. -/
theorem skipFirstNewline_openingNewline {text body : List Char}
    (h : '\n' ∉ text → body.head? ≠ some '\n' ∧ body.head? ≠ some '\r') :
    skipFirstNewline (openingNewline text++body) = body := by
  by_cases hnewline : '\n' ∈ text
  · simp [openingNewline,hnewline,skipFirstNewline,skipNewline?]
  · obtain ⟨hn,hr⟩ := h hnewline
    have hnone : skipNewline? body = none := by
      unfold skipNewline?
      split
      next => exact absurd rfl hn
      next => exact absurd rfl hr
      next => rfl
    simp [openingNewline,hnewline,skipFirstNewline,hnone]

/-- What is written in three double quotes begins with a newline only if the text has
one, and never with a carriage return. -/
theorem head?_escapeBlock {text : List Char} (h : '\n' ∉ text) (rest : List Char) :
    (escapeBlock 0 text++ '"' :: rest).head? ≠ some '\n' ∧
      (escapeBlock 0 text++ '"' :: rest).head? ≠ some '\r' := by
  cases text with
  | nil => simp [escapeBlock]
  | cons c text =>
    by_cases hc : c = '"'
    · simp [escapeBlock,hc]
    · obtain ⟨e,he,hwritten|⟨hnewline,_⟩⟩ := escapeBlock_cons (fun h => absurd h hc) text
      · rw [he,List.append_assoc]
        exact ⟨fun hn => (hwritten.head? hn).2.1 rfl,fun hr => (hwritten.head? hr).2.2 rfl⟩
      · exact absurd (hnewline ▸ List.mem_cons_self) h

/-- Without a run of a character there is none of it. -/
theorem ne_of_longestRunFrom {quote : Char} {run : Nat} {text : List Char}
    (h : longestRunFrom quote run text = 0) : run = 0 ∧ ∀ c ∈ text, c ≠ quote := by
  induction text generalizing run with
  | nil => exact ⟨h,fun _ hc => absurd hc List.not_mem_nil⟩
  | cons c text ih =>
    rw [longestRunFrom] at h
    split at h
    next => exact absurd (ih h).1 (Nat.succ_ne_zero run)
    next hc =>
      obtain ⟨hrun,hothers⟩ : run = 0 ∧ longestRunFrom quote 0 text = 0 := by omega
      exact ⟨hrun,List.forall_mem_cons.mpr ⟨hc,(ih hothers).2⟩⟩

section Forms

variable {text rest : List Char}

/-- One line in double quotes holds every text. -/
theorem text?_quoteAs_basic (hrest : rest.head? ≠ some '"') :
    text? (quoteAs .basic text++rest) = some (text,rest) := by
  have hbody : ∀ more, escapeLine text++ '"' :: rest ≠ '"' :: '"' :: more := by
    intro more he
    cases text with
    | nil =>
      obtain rfl : rest = '"' :: more := (List.cons.inj he).2
      exact hrest rfl
    | cons c text =>
      obtain ⟨e,hline,hwritten⟩ := escapeLine_cons c text
      rw [hline,List.append_assoc] at he
      exact (hwritten.head? (by rw [he]; rfl)).1 rfl
  have hquoted : quoteAs .basic text++rest = '"' :: (escapeLine text++ '"' :: rest) := by
    simp [quoteAs]
  rw [hquoted,text?_basic hbody,basic?_escapeLine]

/-- One line in single quotes holds a text of plain characters other than the quote. -/
theorem text?_quoteAs_literal (h : ∀ c ∈ text, isPlain c ∧ c ≠ '\'')
    (hrest : rest.head? ≠ some '\'') :
    text? (quoteAs .literal text++rest) = some (text,rest) := by
  have hbody : ∀ more, text++ '\'' :: rest ≠ '\'' :: '\'' :: more := by
    intro more he
    cases text with
    | nil =>
      obtain rfl : rest = '\'' :: more := (List.cons.inj he).2
      exact hrest rfl
    | cons c text => exact (h c List.mem_cons_self).2 (List.cons.inj he).1
  have hquoted : quoteAs .literal text++rest = '\'' :: (text++ '\'' :: rest) := by
    simp [quoteAs]
  rw [hquoted,text?_literal hbody,literal?_append h]

/-- Three double quotes hold every text. -/
theorem text?_quoteAs_basicBlock (hrest : rest.head? ≠ some '"') :
    text? (quoteAs .basicBlock text++rest) = some (text,rest) := by
  have hquoted : quoteAs .basicBlock text++rest = '"' :: '"' :: '"' ::
      (openingNewline text++(escapeBlock 0 text++ '"' :: '"' :: '"' :: rest)) := by
    simp [quoteAs]
  have hread := basicBlock?_escapeBlock text (Nat.zero_le 2) hrest
  rw [hquoted,text?,skipFirstNewline_openingNewline fun h => head?_escapeBlock h _]
  exact hread

/-- Three single quotes hold a text without control characters and with no more than two
single quotes in a row. -/
theorem text?_quoteAs_literalBlock (hcontrol : ∀ c ∈ text, isControl c = false)
    (hrun : longestRun '\'' text ≤ 2) (hrest : rest.head? ≠ some '\'') :
    text? (quoteAs .literalBlock text++rest) = some (text,rest) := by
  have hquoted : quoteAs .literalBlock text++rest = '\'' :: '\'' :: '\'' ::
      (openingNewline text++(text++ '\'' :: '\'' :: '\'' :: rest)) := by
    simp [quoteAs]
  have hhead (h : '\n' ∉ text) : (text++ '\'' :: '\'' :: '\'' :: rest).head? ≠ some '\n' ∧
      (text++ '\'' :: '\'' :: '\'' :: rest).head? ≠ some '\r' := by
    cases text with
    | nil => simp
    | cons c text =>
      have hc := hcontrol c List.mem_cons_self
      refine ⟨fun hn => h ?_,fun hr => ?_⟩
      · rw [Option.some.inj hn]
        exact List.mem_cons_self
      · rw [Option.some.inj hr] at hc
        exact absurd hc (by decide)
  have hread := literalBlock?_append hcontrol hrun hrest
  rw [hquoted,text?,skipFirstNewline_openingNewline hhead]
  exact hread

/-- The form that is chosen for a text holds it. -/
theorem text?_quoteAs_quoting (hdouble : rest.head? ≠ some '"')
    (hsingle : rest.head? ≠ some '\'') :
    text? (quoteAs (quoting text) text++rest) = some (text,rest) := by
  have hcontrol (h : text.any isControl = false) : ∀ c ∈ text, isControl c = false := by
    simpa using h
  unfold quoting
  dsimp only
  split
  next => exact text?_quoteAs_basic hdouble
  split
  next h =>
    obtain ⟨hany,hrun,hnewline⟩ := h
    refine text?_quoteAs_literal (fun c hc => ⟨?_,(ne_of_longestRunFrom hrun).2 c hc⟩) hsingle
    refine isPlain_of_isControl (hcontrol hany c hc) ?_
    rintro rfl
    simp [hc] at hnewline
  split
  next => exact text?_quoteAs_basicBlock hdouble
  split
  next h => exact text?_quoteAs_literalBlock (hcontrol h.1) h.2 hsingle
  split
  next => exact text?_quoteAs_basicBlock hdouble
  next => exact text?_quoteAs_basic hdouble

end Forms

end GrammarCensus.Toml
