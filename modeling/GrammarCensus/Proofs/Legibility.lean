import Mathlib.Data.List.TakeWhile
import GrammarCensus.Proofs.Writing

/-!
# Every text is legible

Any text whatever is layout with lexemes in between. Where no further layout
stands, what comes next is a lexeme of its kind that ends before anything that
would continue it, so going on behind it takes the whole text apart. The main
statements are that every text can be written that way, and so that every token
is a lexeme of its kind.
-/

namespace GrammarCensus

open Lexicon

namespace Lexicon

/-- No lexeme is empty. -/
theorem ne_nil_of_inClass {kind : Token.Kind} {text : List Char} (h : InClass kind text) :
    text ≠ [] := by
  rintro rfl
  cases kind <;> simp [InClass,IsName] at h

/-- Only blanks and comments are passed over. -/
theorem leading_kind?_eq_none_iff {c : Char} {text : List Char} :
    (leading (c::text)).kind? = none ↔ isBlank c ∨ c = '/' ∧ text.head? = some '/' := by
  rw [leading_cons]
  by_cases hblank : isBlank c
  · simp [hblank]
  · by_cases hcomment : c = '/' ∧ text.head? = some '/'
    · rw [if_neg hblank,if_pos hcomment]
      simp [hcomment]
    · rw [if_neg hblank,if_neg hcomment]
      repeat' split
      all_goals simp [hblank,hcomment]

/-- Behind all characters of a class comes none of it. -/
theorem not_of_head?_dropWhile {p : Char → Bool} {text : List Char} {c : Char}
    (h : (text.dropWhile p).head? = some c) : p c = false := by
  have hnot := List.head?_dropWhile_not p text
  rw [h] at hnot
  simpa using hnot

/-- A sign is a lexeme that nothing continues. -/
theorem exists_word_of_sign {kind : Token.Kind} {c : Char} (hclass : InClass kind [c])
    (hsymbol : kind ≠ .nonTerminal ∧ kind ≠ .terminal) (hc : c ≠ '/') (text : List Char) :
    ∃ word rest, c::text = word++rest ∧ InClass kind word ∧ ¬Continues kind word rest := by
  refine ⟨[c],text,rfl,hclass,?_⟩
  rintro (⟨hname|hname,_⟩|⟨hslash,_⟩)
  · exact hsymbol.1 hname
  · exact hsymbol.2 hname
  · exact hc (List.cons.inj hslash).1

/-- A name is a lexeme where all its characters are taken. -/
theorem exists_word_of_name {kind : Token.Kind} {first : Char → Bool} {c : Char}
    (hclass : ∀ word, IsName first word → InClass kind word) (hfirst : first c)
    (hc : isNameChar c) (text : List Char) :
    ∃ word rest, c::text = word++rest ∧ InClass kind word ∧ ¬Continues kind word rest := by
  have hname : IsName first (c::text.takeWhile isNameChar) :=
    ⟨c,_,rfl,hfirst,fun d hd => List.mem_takeWhile_imp hd⟩
  refine ⟨_,text.dropWhile isNameChar,?_,hclass _ hname,?_⟩
  · rw [List.cons_append,List.takeWhile_append_dropWhile]
  · rintro (⟨_,d,hd,hdname⟩|⟨hslash,_⟩)
    · rw [not_of_head?_dropWhile hd] at hdname
      cases hdname
    · exact (ne_of_isNameChar hc).2.1 (List.cons.inj hslash).1

/-- A piece that becomes a token is a lexeme of its kind, and what stands behind it
does not continue it. -/
theorem exists_word_of_leading {kind : Token.Kind} {text : List Char}
    (h : (leading text).kind? = some kind) (hk : kind ≠ .endOfInput) :
    ∃ word rest, text = word++rest ∧ InClass kind word ∧ ¬Continues kind word rest := by
  cases text with
  | nil =>
    rw [leading_nil,Option.some.injEq] at h
    exact absurd h.symm hk
  | cons c text =>
    by_cases hnone : isBlank c ∨ c = '/' ∧ text.head? = some '/'
    · rw [leading_kind?_eq_none_iff.mpr hnone] at h
      cases h
    · obtain ⟨hblank,hcomment⟩ := not_or.mp hnone
      rw [leading_cons,if_neg hblank,if_neg hcomment] at h
      -- one case for each rule that gives a token, in the order of the rules
      split_ifs at h with hcolon hpipe hsemicolon hlower hupper <;>
        obtain rfl := Option.some.inj h
      · obtain rfl := hcolon
        exact exists_word_of_sign (by rfl) (by decide) (by decide) text
      · obtain rfl := hpipe
        exact exists_word_of_sign (by rfl) (by decide) (by decide) text
      · obtain rfl := hsemicolon
        exact exists_word_of_sign (by rfl) (by decide) (by decide) text
      · exact exists_word_of_name (fun _ => id) hlower (isNameChar_of_isLower hlower) text
      · exact exists_word_of_name (fun _ => id) hupper (isNameChar_of_isUpper hupper) text
      · rw [Bool.not_eq_true] at hblank hlower hupper
        refine ⟨[c],text,rfl,⟨c,rfl,hblank,hlower,hupper,hcolon,hpipe,hsemicolon⟩,?_⟩
        rintro (⟨hname,_⟩|⟨hslash,hhead⟩)
        · simp at hname
        · exact hcomment ⟨(List.cons.inj hslash).1,hhead⟩

end Lexicon

/-- Layout behind layout is layout. -/
theorem Layout.append {first second : List Char} (h : Layout first) (h' : Layout second) :
    Layout (first++second) := by
  induction h with
  | nothing => exact h'
  | blank hc _ ih => exact .blank hc ih
  | @comment body layout hb _ ih =>
    have hcomment := Layout.comment hb ih
    simpa using hcomment

/-- Layout may stand in front of the layout at the end of a text. -/
theorem FinalLayout.append {first second : List Char} (h : Layout first)
    (h' : FinalLayout second) : FinalLayout (first++second) := by
  cases h' with
  | closed h' => exact .closed (h.append h')
  | @opened layout body h' hb =>
    rw [←List.append_assoc]
    exact .opened (h.append h') hb

/-- A text that goes on with layout, and then either with a piece that becomes a
token or not at all. -/
inductive LaidOut : List Char → Prop
  /-- A token comes behind the layout. -/
  | token {layout rest kind} : Layout layout → (leading rest).kind? = some kind →
      kind ≠ .endOfInput → LaidOut (layout++rest)
  /-- Nothing comes behind the layout. -/
  | final {layout} : FinalLayout layout → LaidOut layout

/-- Layout may be put in front of a text that goes on with layout. -/
theorem LaidOut.append {first second : List Char} (h : Layout first) (h' : LaidOut second) :
    LaidOut (first++second) := by
  cases h' with
  | token h' hkind hk =>
    rw [←List.append_assoc]
    exact .token (h.append h') hkind hk
  | final h' => exact .final (.append h h')

/-- A line ends with a newline, or with the text. -/
theorem exists_line (text : List Char) :
    (∃ body rest, text = body++ '\n' :: rest ∧ ∀ c ∈ body, isCommentChar c) ∨
      ∀ c ∈ text, isCommentChar c := by
  have hbody : ∀ c ∈ text.takeWhile isCommentChar, isCommentChar c :=
    fun _ hc => List.mem_takeWhile_imp hc
  have hline := List.takeWhile_append_dropWhile (p := isCommentChar) (l := text)
  cases hrest : text.dropWhile isCommentChar with
  | nil =>
    rw [hrest,List.append_nil] at hline
    rw [hline] at hbody
    exact Or.inr hbody
  | cons c rest =>
    obtain rfl : c = '\n' := by
      have hnot := not_of_head?_dropWhile (List.head?_eq_some_iff.mpr ⟨_,hrest⟩)
      simpa [isCommentChar] using hnot
    rw [hrest] at hline
    exact Or.inl ⟨_,_,hline.symm,hbody⟩

/-- Every text goes on with layout, which may be nothing. -/
theorem laidOut (text : List Char) : LaidOut text := by
  induction hn : text.length using Nat.strongRecOn generalizing text with
  | ind n ih =>
    subst hn
    cases text with
    | nil => exact .final (.closed .nothing)
    | cons c text =>
      cases hkind : (leading (c::text)).kind? with
      | some kind =>
        have hk : kind ≠ .endOfInput := by
          rintro rfl
          exact List.cons_ne_nil _ _ (leading_kind?_endOfInput hkind)
        exact .token .nothing hkind hk
      | none =>
        rcases leading_kind?_eq_none_iff.mp hkind with hblank|⟨rfl,hslash⟩
        · have hlt : text.length < (c::text).length := Nat.lt_succ_self _
          exact .append (.blank hblank .nothing) (ih _ hlt text rfl)
        · obtain ⟨more,rfl⟩ := List.head?_eq_some_iff.mp hslash
          rcases exists_line more with ⟨body,rest,rfl,hbody⟩|hbody
          · have hlt : rest.length < ('/' :: '/' :: (body++ '\n' :: rest)).length := by
              simp only [List.length_append,List.length_cons]
              omega
            have hcomment := LaidOut.append (.comment hbody .nothing) (ih _ hlt rest rfl)
            simpa using hcomment
          · exact .final (.opened .nothing hbody)

/-- Every text is written from some lexemes with layout around them, none of which
is continued by what stands behind it. -/
theorem exists_legible (text : List Char) :
    ∃ placed final, text = written placed final ∧ Legible final placed := by
  induction hn : text.length using Nat.strongRecOn generalizing text with
  | ind n ih =>
    subst hn
    cases laidOut text with
    | @token layout rest kind hlayout hkind hk =>
      obtain ⟨word,behind,rfl,hclass,hcontinues⟩ := exists_word_of_leading hkind hk
      have hlt : behind.length < (layout++(word++behind)).length := by
        have hpos := List.length_pos_iff.mpr (ne_nil_of_inClass hclass)
        simp only [List.length_append]
        omega
      obtain ⟨placed,final,rfl,hlegible⟩ := ih _ hlt behind rfl
      refine ⟨⟨layout,kind,String.ofList word⟩::placed,final,?_,hlayout,?_,?_,hlegible⟩
      · rw [written,String.toList_ofList]
      · rwa [String.toList_ofList]
      · rwa [String.toList_ofList]
    | final hfinal => exact ⟨[],text,rfl,hfinal⟩

/-- Every token of a text is a lexeme of its kind. -/
theorem inClass_of_mem_tokens {text : String} {t : Token} (h : t ∈ tokens text) :
    InClass t.kind t.lexeme.toList := by
  obtain ⟨placed,final,ht,hlegible⟩ := exists_legible text.toList
  have hword : t.word ∈ placed.map (·.word) := by
    rw [←words_tokens ht hlegible]
    exact List.mem_map_of_mem h
  obtain ⟨p,hp,hpt⟩ := List.mem_map.mp hword
  have hclass := hlegible.inClass hp
  rwa [hpt] at hclass

end GrammarCensus
