import Mathlib.Data.List.TakeWhile
import GrammarCensus.Proofs.Toml.QuotedText
import GrammarCensus.Toml.Key

/-!
# Words in front of another line

A text may end where a word of it does, or a newline may stand there with another line behind
it. The readers of gaps, texts and keys take the same in both cases: what they take is complete
before the end of the text, and a newline belongs to none of it. A gap of several lines is
the exception, since it goes on over the newline; it is the same where it ends before
the text does.
-/

namespace GrammarCensus.Toml

/-- A reader takes the same off a text when another line follows the text. -/
def Steady {α : Type} (read? : List Char → Option (α × List Char)) : Prop :=
  ∀ ⦃text rest : List Char⦄ ⦃a : α⦄, read? text = some (a,rest) → ∀ next : List Char,
    read? (text++ '\n' :: next) = some (a,rest++ '\n' :: next)

/-- A text that the newline behind it cannot make part of a gap: it is not empty, nor is it
the first half of a line end. -/
def Settled (text : List Char) : Prop :=
  text ≠ [] ∧ text ≠ ['\r']

section Gaps

variable {p : Char → Bool} {text rest : List Char}

/-- Characters among which the newline is not are taken up to it. -/
theorem takeWhile_append_newline (hp : p '\n' = false) (text next : List Char) :
    (text++ '\n' :: next).takeWhile p = text.takeWhile p := by
  rw [List.takeWhile_append]
  split
  next hall =>
    rw [List.takeWhile_cons_of_neg (by simp [hp]),List.append_nil,
      (List.takeWhile_prefix p).eq_of_length hall]
  next => rfl

/-- What stands behind them goes on with the newline. -/
theorem dropWhile_append_newline (hp : p '\n' = false) (text next : List Char) :
    (text++ '\n' :: next).dropWhile p = text.dropWhile p++ '\n' :: next := by
  rw [List.dropWhile_append]
  split
  next hall =>
    rw [List.isEmpty_iff.mp hall,List.dropWhile_cons_of_neg (by simp [hp]),List.nil_append]
  next => rfl

/-- A text that does not begin with a character does not with another line behind it, unless
that character is the newline. -/
theorem append_ne_cons {c : Char} (hc : c ≠ '\n') (h : ∀ others, text = c::others → False)
    (next others : List Char) : text++ '\n' :: next = c::others → False := by
  intro he
  cases text with
  | nil => exact hc (List.cons.inj he).1.symm
  | cons d behind => exact h behind (by rw [(List.cons.inj he).1])

/-- Blank characters do not go on over a newline. -/
theorem skipSpaces_append (text next : List Char) :
    skipSpaces (text++ '\n' :: next) = skipSpaces text++ '\n' :: next :=
  dropWhile_append_newline rfl text next

/-- Nor does a comment. -/
theorem skipComment_append (text next : List Char) :
    skipComment (text++ '\n' :: next) = skipComment text++ '\n' :: next := by
  cases text with
  | nil => rfl
  | cons c text =>
    by_cases hc : c = '#'
    · subst hc
      exact dropWhile_append_newline rfl text next
    · simp [skipComment,hc]

/-- A given character is read in front of another line as it is without that. -/
theorem sign?_append {s : Char} (h : sign? s text = some rest) (next : List Char) :
    sign? s (text++ '\n' :: next) = some (rest++ '\n' :: next) := by
  cases text with
  | nil => cases h
  | cons c text =>
    rw [sign?] at h
    split at h
    next hc =>
      cases h
      rw [List.cons_append,sign?,if_pos hc]
    next => cases h

/-- Only a settled text is read by a reader that reads no other ones. -/
theorem settled_of_read {α : Type} {read? : List Char → Option α} {a : α}
    (hnil : read? [] = none) (hreturn : read? ['\r'] = none) (h : read? text = some a) :
    Settled text := by
  constructor
  · rintro rfl
    rw [hnil] at h
    cases h
  · rintro rfl
    rw [hreturn] at h
    cases h

/-- Whether a settled text begins with a line end does not depend on what follows it. -/
theorem skipNewline?_append (hs : Settled text) (next : List Char) :
    skipNewline? (text++ '\n' :: next) = (skipNewline? text).map (·++ '\n' :: next) := by
  cases text with
  | nil => exact absurd rfl hs.1
  | cons c text =>
    by_cases hc : c = '\n'
    · subst hc
      rfl
    · by_cases hr : c = '\r'
      · subst hr
        cases text with
        | nil => exact absurd rfl hs.2
        | cons d text =>
          by_cases hd : d = '\n'
          · subst hd
            rfl
          · simp [skipNewline?,hd]
      · simp [skipNewline?,hc,hr]

/-- The end of a line is the same when another line follows, and where the text ends it is the
newline in front of that line. -/
theorem skipLineEnd?_append (h : skipLineEnd? text = some rest) (next : List Char) :
    skipLineEnd? (text++ '\n' :: next) = some (rest++ '\n' :: next) ∨
      rest = [] ∧ skipLineEnd? (text++ '\n' :: next) = some next := by
  rw [skipLineEnd?] at h ⊢
  rw [skipSpaces_append,skipComment_append]
  split at h
  next hend =>
    cases h
    rw [hend]
    exact Or.inr ⟨rfl,rfl⟩
  next hne =>
    have hs : Settled (skipComment (skipSpaces text)) := settled_of_read rfl rfl h
    refine Or.inl ?_
    split
    next hnil => simp at hnil
    next => rw [skipNewline?_append hs,h,Option.map_some]

/-- Blanks and line ends after a backslash are left out up to something settled. -/
theorem skipBlankLines_append (hs : Settled (skipBlankLines text)) (next : List Char) :
    skipBlankLines (text++ '\n' :: next) = skipBlankLines text++ '\n' :: next := by
  fun_induction skipBlankLines text with
  | case1 rest ih => exact ih hs
  | case2 rest ih => exact ih hs
  | case3 rest ih => exact ih hs
  | case4 rest ih => exact ih hs
  | case5 text hlf hcrlf hspace htab =>
    -- only a carriage return at the very end could become a line end
    cases text with
    | nil => exact absurd rfl hs.1
    | cons c rest =>
      rw [skipBlankLines.eq_def]
      split
      next he => exact (hlf rest (by rw [(List.cons.inj he).1])).elim
      next he =>
        obtain ⟨rfl,hbehind⟩ := List.cons.inj he
        cases rest with
        | nil => exact absurd rfl hs.2
        | cons d rest => exact (hcrlf rest (by rw [(List.cons.inj hbehind).1])).elim
      next he => exact (hspace rest (by rw [(List.cons.inj he).1])).elim
      next he => exact (htab rest (by rw [(List.cons.inj he).1])).elim
      next => rfl

/-- A line end behind opening quotes is left out alike. -/
theorem skipFirstNewline_append (hs : Settled (skipFirstNewline text)) (next : List Char) :
    skipFirstNewline (text++ '\n' :: next) = skipFirstNewline text++ '\n' :: next := by
  simp only [skipFirstNewline] at hs ⊢
  cases h : skipNewline? text with
  | none =>
    have htext : Settled text := by
      rw [h] at hs
      exact hs
    rw [skipNewline?_append htext,h]
    rfl
  | some rest =>
    rw [skipNewline?_append (settled_of_read rfl rfl h),h]
    rfl

/-- So are gaps between the words of an array. -/
theorem skipGaps_append (hs : Settled (skipGaps text)) (next : List Char) :
    skipGaps (text++ '\n' :: next) = skipGaps text++ '\n' :: next := by
  fun_induction skipGaps text with
  | case1 => exact absurd rfl hs.1
  | case2 c rest hc ih =>
    rw [List.cons_append,skipGaps,if_pos hc]
    exact ih hs
  | case3 c rest hc hr ih =>
    obtain ⟨rfl,hnewline⟩ := hr
    cases rest with
    | nil => cases hnewline
    | cons d rest =>
      obtain rfl := Option.some.inj hnewline
      rw [List.cons_append,skipGaps,if_neg hc,if_pos ⟨rfl,rfl⟩]
      exact ih hs
  | case4 rest hc hr ih =>
    rw [List.cons_append,skipGaps,if_neg hc,if_neg (fun h => absurd h.1 (by decide)),if_pos rfl,
      dropWhile_append_newline rfl]
    exact ih hs
  | case5 c rest hc hr hcomment =>
    have hr' : ¬(c = '\r' ∧ (rest++ '\n' :: next).head? = some '\n') := by
      cases rest with
      | nil =>
        rintro ⟨rfl,_⟩
        exact hs.2 rfl
      | cons d rest => exact hr
    rw [List.cons_append,skipGaps,if_neg hc,if_neg hr',if_neg hcomment]

/-- A gap in front of a sign ends at that sign. -/
theorem skipGaps_append_of_cons {c : Char} (h : skipGaps text = c::rest) (hc : c ≠ '\r')
    (next : List Char) : skipGaps (text++ '\n' :: next) = c::(rest++ '\n' :: next) := by
  have hs : Settled (skipGaps text) := by
    rw [h]
    exact ⟨List.cons_ne_nil c rest,fun he => hc (List.cons.inj he).1⟩
  rw [skipGaps_append hs,h]
  rfl

end Gaps

section Texts

variable {text rest : List Char}

/-- The digits of a code point do not reach beyond the text. -/
theorem steady_codePoint? (width : Nat) : Steady (codePoint? width) := by
  intro text rest c h next
  rw [codePoint?] at h
  obtain ⟨_,hguard,h⟩ := Option.bind_eq_some_iff.mp h
  obtain ⟨digits,hdigits,h⟩ := Option.bind_eq_some_iff.mp h
  obtain ⟨_,hvalid,h⟩ := Option.bind_eq_some_iff.mp h
  obtain ⟨rfl,rfl⟩ := Prod.mk.inj (Option.some.inj h)
  have hwidth : width ≤ text.length := (Option.guard_eq_some' _).mp hguard
  have hlonger : width ≤ (text++ '\n' :: next).length := by
    rw [List.length_append]
    omega
  rw [codePoint?,(Option.guard_eq_some' ()).mpr hlonger,List.take_append_of_le_length hwidth,
    List.drop_append_of_le_length hwidth,hdigits]
  simp only [Option.bind_eq_bind,Option.bind_some,hvalid,Option.pure_def]

/-- An escape does not either. -/
theorem steady_escape? : Steady escape? := by
  intro text rest c h next
  rw [escape?.eq_def] at h
  split at h
  next => cases h
  next => exact steady_codePoint? 4 h next
  next => exact steady_codePoint? 8 h next
  next d others hu hU =>
    obtain ⟨e,he,hpair⟩ := Option.map_eq_some_iff.mp h
    cases hpair
    rw [List.cons_append,escape?.eq_4 _ _ hu hU,he]
    rfl

/-- A text of which the first character is given goes on as the others do. -/
theorem withFirst_eq_of_imp {c : Char} {r r' : Option (List Char × List Char)}
    {rest' : List Char} (h : withFirst c r = some (text,rest))
    (hr : ∀ others, r = some (others,rest) → r' = some (others,rest')) :
    withFirst c r' = some (text,rest') := by
  obtain ⟨others,rfl,hothers⟩ := withFirst_eq_some h
  rw [hr others hothers]
  rfl

/-- A text in double quotes ends at its closing quote. -/
theorem steady_basic? : Steady basic? := by
  intro text rest content h next
  fun_induction basic? text generalizing content with
  | case1 => cases h
  | case2 others =>
    cases h
    rw [List.cons_append,basic?,if_pos rfl]
  | case3 => cases h
  | case4 others d behind he _ _ ih =>
    rw [List.cons_append,basic?_of_escape (steady_escape? he next)]
    exact withFirst_eq_of_imp h fun _ hr => ih hr
  | case5 c others hquote hescape hplain ih =>
    rw [List.cons_append,basic?,if_neg hquote,if_neg hescape,if_pos hplain]
    exact withFirst_eq_of_imp h fun _ hr => ih hr
  | case6 => cases h

/-- So does a text in single quotes. -/
theorem steady_literal? : Steady literal? := by
  intro text rest content h next
  fun_induction literal? text generalizing content with
  | case1 => cases h
  | case2 others =>
    cases h
    rw [List.cons_append,literal?,if_pos rfl]
  | case3 c others hquote hplain ih =>
    rw [List.cons_append,literal?,if_neg hquote,if_pos hplain]
    exact withFirst_eq_of_imp h fun _ hr => ih hr
  | case4 => cases h

/-- Three closing quotes are complete in front of a newline, or they are none. -/
theorem closing?_append {quote : Char} (hquote : quote ≠ '\n') (text next : List Char) :
    closing? quote (text++ '\n' :: next) =
      (closing? quote text).map fun (content,rest) => (content,rest++ '\n' :: next) := by
  -- with fewer than three characters the newline is among the first three of the longer text
  rcases text with _|⟨a,_|⟨b,_|⟨c,rest⟩⟩⟩
  · simp [closing?,hquote.symm]
  · simp [closing?,hquote.symm]
  · simp [closing?,hquote.symm]
  · have hrun := takeWhile_append_newline (p := (· = quote)) (decide_eq_false hquote.symm) rest next
    have hmore : min 2 (rest.takeWhile (· = quote)).length ≤ rest.length :=
      (Nat.min_le_right _ _).trans (List.takeWhile_prefix _).length_le
    simp only [closing?,List.cons_append,List.take_succ_cons,List.take_zero,List.drop_succ_cons,
      List.drop_zero]
    split
    next =>
      rw [hrun]
      simp only [Option.map_some,Nat.add_comm 3,List.drop_succ_cons]
      rw [List.drop_append_of_le_length hmore]
    next => rfl

namespace EndsAtQuotes

variable {quote : Char} {read? : List Char → Option (List Char × List Char)}
  {content : List Char}

/-- Closing quotes end a text in front of another line. -/
theorem append_of_closing (h : EndsAtQuotes quote read?) (hquote : quote ≠ '\n')
    (hclosing : closing? quote (quote::text) = some (content,rest)) (next : List Char) :
    read? (quote::text++ '\n' :: next) = some (content,rest++ '\n' :: next) := by
  rw [List.cons_append,h,←List.cons_append,closing?_append hquote,hclosing]
  rfl

/-- A quote that does not close a text there is passed over there as well. -/
theorem append_of_passing (h : EndsAtQuotes quote read?) (hquote : quote ≠ '\n')
    (hclosing : closing? quote (quote::text) = none) (next : List Char) :
    read? (quote::text++ '\n' :: next) = withFirst quote (read? (text++ '\n' :: next)) := by
  rw [List.cons_append,h,←List.cons_append,closing?_append hquote,hclosing]
  rfl

end EndsAtQuotes

/-- What a backslash at the end of a line is followed by is no escape. -/
theorem escape?_append_of_continuation? (h : continuation? text = some rest)
    (next : List Char) : escape? (text++ '\n' :: next) = none := by
  obtain ⟨behind,hnewline,_⟩ := Option.map_eq_some_iff.mp h
  cases text with
  | nil => cases hnewline
  | cons c others =>
    by_cases hspace : isSpace c
    · rcases (Bool.or_eq_true _ _).mp hspace with hc|hc
      · rw [of_decide_eq_true hc]
        rfl
      · rw [of_decide_eq_true hc]
        rfl
    · rw [skipSpaces,List.dropWhile_cons_of_neg hspace,skipNewline?.eq_def] at hnewline
      split at hnewline
      next he =>
        rw [(List.cons.inj he).1]
        rfl
      next he =>
        rw [(List.cons.inj he).1]
        rfl
      next => cases hnewline

/-- A line that a backslash continues goes on at the same place. -/
theorem continuation?_append (h : continuation? text = some rest) (hs : Settled rest)
    (next : List Char) : continuation? (text++ '\n' :: next) = some (rest++ '\n' :: next) := by
  obtain ⟨behind,hnewline,rfl⟩ := Option.map_eq_some_iff.mp h
  rw [continuation?,skipSpaces_append,skipNewline?_append (settled_of_read rfl rfl hnewline),
    hnewline,Option.map_some,Option.map_some,skipBlankLines_append hs]

/-- A backslash that is none of an escape continues a line. -/
theorem basicBlock?_of_continuation (hescape : escape? text = none)
    (h : continuation? text = some rest) : basicBlock? ('\\' :: text) = basicBlock? rest := by
  rw [basicBlock?,if_neg (by decide),if_pos rfl]
  split
  next hsome => rw [hescape] at hsome; cases hsome
  next =>
    split
    next hsome =>
      rw [h] at hsome
      cases hsome
      rfl
    next hnone => rw [h] at hnone; cases hnone

/-- A text in three double quotes ends at its closing quotes. -/
theorem steady_basicBlock? : Steady basicBlock? := by
  intro text rest content h next
  fun_induction basicBlock? text generalizing content with
  | case1 => cases h
  | case2 others closed hclosing =>
    cases h
    exact endsAtQuotes_basicBlock?.append_of_closing (by decide) hclosing next
  | case3 others hclosing ih =>
    rw [endsAtQuotes_basicBlock?.append_of_passing (by decide) hclosing]
    exact withFirst_eq_of_imp h fun _ hr => ih hr
  | case4 others d behind he _ _ ih =>
    rw [List.cons_append,basicBlock?_of_escape (steady_escape? he next)]
    exact withFirst_eq_of_imp h fun _ hr => ih hr
  | case5 others _ behind hbehind _ _ ih =>
    -- the blank lines behind the backslash cannot reach the end, since a quote is still to come
    have hsettled : Settled behind := settled_of_read (by rw [basicBlock?]) (by decide +kernel) h
    rw [List.cons_append,basicBlock?_of_continuation (escape?_append_of_continuation? hbehind next)
      (continuation?_append hbehind hsettled next)]
    exact ih h
  | case6 => cases h
  | case7 c others hquote hescape hplain ih =>
    rw [List.cons_append,basicBlock?,if_neg hquote,if_neg hescape,if_pos hplain]
    exact withFirst_eq_of_imp h fun _ hr => ih hr
  | case8 c others hquote hescape hplain hreturn ih =>
    cases others with
    | nil => cases hreturn.2
    | cons d others =>
      rw [List.cons_append,basicBlock?,if_neg hquote,if_neg hescape,if_neg hplain,
        if_pos ⟨hreturn.1,hreturn.2⟩]
      exact withFirst_eq_of_imp h fun _ hr => ih hr
  | case9 => cases h

/-- So does a text in three single quotes. -/
theorem steady_literalBlock? : Steady literalBlock? := by
  intro text rest content h next
  fun_induction literalBlock? text generalizing content with
  | case1 => cases h
  | case2 others closed hclosing =>
    cases h
    exact endsAtQuotes_literalBlock?.append_of_closing (by decide) hclosing next
  | case3 others hclosing ih =>
    rw [endsAtQuotes_literalBlock?.append_of_passing (by decide) hclosing]
    exact withFirst_eq_of_imp h fun _ hr => ih hr
  | case4 c others hquote hplain ih =>
    rw [List.cons_append,literalBlock?,if_neg hquote,if_pos hplain]
    exact withFirst_eq_of_imp h fun _ hr => ih hr
  | case5 c others hquote hplain hreturn ih =>
    cases others with
    | nil => cases hreturn.2
    | cons d others =>
      rw [List.cons_append,literalBlock?,if_neg hquote,if_neg hplain,if_pos ⟨hreturn.1,hreturn.2⟩]
      exact withFirst_eq_of_imp h fun _ hr => ih hr
  | case6 => cases h

/-- Two quotes in front of another line stand in the text before it. -/
theorem append_ne_of_ne {quote : Char} (hquote : quote ≠ '\n')
    (h : ∀ more, text ≠ quote :: quote :: more) (next more : List Char) :
    text++ '\n' :: next ≠ quote :: quote :: more := by
  rcases text with _|⟨a,_|⟨b,text⟩⟩
  · simp [hquote.symm]
  · simp [hquote.symm]
  · intro he
    obtain ⟨rfl,he⟩ := List.cons.inj he
    exact h text (by rw [(List.cons.inj he).1])

/-- A text in any of its forms ends at what closes it. -/
theorem steady_text? : Steady text? := by
  intro text rest content h next
  rw [text?.eq_def] at h
  split at h
  next others =>
    have hs : Settled (skipFirstNewline others) :=
      settled_of_read (by rw [basicBlock?]) (by decide +kernel) h
    have hblock := steady_basicBlock? h next
    rw [←skipFirstNewline_append hs] at hblock
    exact hblock
  next others hthree =>
    have hmore : ∀ more, others ≠ '"' :: '"' :: more := by
      rintro more rfl
      exact hthree more rfl
    rw [List.cons_append,text?_basic (append_ne_of_ne (by decide) hmore next)]
    exact steady_basic? h next
  next others =>
    have hs : Settled (skipFirstNewline others) :=
      settled_of_read (by rw [literalBlock?]) (by decide +kernel) h
    have hblock := steady_literalBlock? h next
    rw [←skipFirstNewline_append hs] at hblock
    exact hblock
  next others hthree =>
    have hmore : ∀ more, others ≠ '\'' :: '\'' :: more := by
      rintro more rfl
      exact hthree more rfl
    rw [List.cons_append,text?_literal (append_ne_of_ne (by decide) hmore next)]
    exact steady_literal? h next
  next => cases h

end Texts

section Keys

/-- What is made of something read steadily is read steadily. -/
theorem Steady.map {α β : Type} {read? : List Char → Option (α × List Char)}
    (hread : Steady read?) (f : α → β) :
    Steady fun text => (read? text).map fun (a,rest) => (f a,rest) := by
  intro text rest b h next
  obtain ⟨⟨a,behind⟩,ha,hpair⟩ := Option.map_eq_some_iff.mp h
  cases hpair
  change (read? _).map _ = _
  rw [hread ha next]
  rfl

/-- A key without dots ends at its closing quote or where no character of a bare key comes. -/
theorem steady_simpleKey? : Steady simpleKey? := by
  intro text rest name h next
  cases text with
  | nil => cases h
  | cons c others =>
    simp only [simpleKey?,List.cons_append] at h ⊢
    split at h
    next hquote =>
      rw [if_pos hquote]
      exact steady_basic?.map String.ofList h next
    next hquote =>
      rw [if_neg hquote]
      split at h
      next hsingle =>
        rw [if_pos hsingle]
        exact steady_literal?.map String.ofList h next
      next hsingle =>
        rw [if_neg hsingle]
        split at h
        next hbare =>
          cases h
          rw [if_pos hbare,takeWhile_append_newline rfl,dropWhile_append_newline rfl]
        next => cases h

/-- Blanks around a name of a key do not reach over a newline. -/
theorem steady_keyName? : Steady keyName? := by
  intro text rest name h next
  obtain ⟨⟨_,behind⟩,hkey,hpair⟩ := Option.map_eq_some_iff.mp h
  cases hpair
  rw [keyName?,skipSpaces_append,steady_simpleKey? hkey next,Option.map_some]
  exact congrArg (fun rest => some (name,rest)) (skipSpaces_append behind next)

/-- A key goes on at a dot only. -/
theorem steady_dottedKey? : Steady dottedKey? := by
  intro text rest key h next
  fun_induction dottedKey? text generalizing key with
  | case1 => cases h
  | case2 text name others hname _ ih =>
    obtain ⟨⟨_,_⟩,hothers,hpair⟩ := Option.map_eq_some_iff.mp h
    cases hpair
    have hdot : keyName? (text++ '\n' :: next) = some (name,'.' :: (others++ '\n' :: next)) :=
      steady_keyName? hname next
    rw [dottedKey?_of_dot hdot,ih hothers]
    rfl
  | case3 text name others hend hname =>
    cases h
    exact dottedKey?_of_end (steady_keyName? hname next) (append_ne_cons (by decide) hend next)

/-- The limit for keys is the same for all texts. -/
theorem steady_key? : Steady key? := by
  intro text rest key h next
  rw [key?] at h
  obtain ⟨⟨key,behind⟩,hdotted,h⟩ := Option.bind_eq_some_iff.mp h
  obtain ⟨_,hguard,h⟩ := Option.bind_eq_some_iff.mp h
  cases h
  rw [key?,steady_dottedKey? hdotted next]
  simp only [Option.bind_eq_bind,Option.bind_some,hguard,Option.pure_def]

end Keys

end GrammarCensus.Toml
