import Mathlib.Data.List.Chain
import GrammarCensus.Proofs.Legibility

/-!
# Printing words

Words of any kinds can be printed one after the other, stray characters included.
Between two of them stands layout that begins with a blank, or nothing where they
cannot be taken for one: a name must not meet what would go on with it, nor one
slash another. The main statement is that reading what has been printed gives back
the words, and that the words of every text can be printed again.
-/

namespace GrammarCensus

open Lexicon

/-- A word begins with a character of a name. -/
def Word.BeginsName (w : Word) : Prop :=
  ∃ c, w.lexeme.toList.head? = some c ∧ isNameChar c

/-- What may stand between two printed words. -/
inductive Separates (left right : Word) : List Char → Prop
  /-- A blank, and then layout. -/
  | blank {c layout} : isBlank c → Layout layout → Separates left right (c::layout)
  /-- Nothing, where the second word does not go on with a name that the first one is,
  and the two are not slashes. -/
  | nothing : ¬(left.IsSymbol ∧ right.BeginsName) →
      ¬(left.lexeme = "/" ∧ right.lexeme = "/") → Separates left right []

/-- What may stand behind the last printed word. -/
inductive Closes : List Char → Prop
  /-- A blank, and then layout whose last comment may stay open. -/
  | blank {c layout} : isBlank c → FinalLayout layout → Closes (c::layout)
  /-- Nothing at all. -/
  | nothing : Closes []

/-- Words with what has been printed in front of each of them and behind them all. -/
structure Printed (placed : List Placed) (final : List Char) : Prop where
  /-- Each word is a lexeme of its kind. -/
  inClass : ∀ p ∈ placed, InClass p.word.kind p.word.lexeme.toList
  /-- Any layout stands in front of the first word. -/
  first : ∀ p, placed.head? = some p → Layout p.layout
  /-- Two words in a row are kept apart. -/
  separated : placed.IsChain fun p q => Separates p.word q.word q.layout
  /-- Layout stands at the end, and it does not touch the last word. -/
  final : FinalLayout final ∧ (placed ≠ [] → Closes final)

/-- A slash in front of a lexeme is the whole of it. -/
theorem eq_slash_of_inClass {kind : Token.Kind} {text : List Char} (h : InClass kind text)
    (hc : text.head? = some '/') : text = ['/'] := by
  cases kind with
  | endOfInput => cases h
  | error =>
    obtain ⟨c,rfl,_⟩ := h
    rw [Option.some.inj hc]
  | nonTerminal | terminal =>
    obtain ⟨c,rest,rfl,hfirst,_⟩ := h
    rw [Option.some.inj hc] at hfirst
    exact absurd hfirst (by decide)
  | colon | pipe | semicolon =>
    obtain rfl : text = _ := h
    exact absurd (Option.some.inj hc) (by decide)

/-- A blank continues no lexeme. -/
theorem not_continues_of_isBlank {kind : Token.Kind} {text rest : List Char} {c : Char}
    (hc : isBlank c) : ¬Continues kind text (c::rest) := by
  rintro (⟨_,d,hd,hname⟩|⟨_,hslash⟩)
  · obtain rfl := Option.some.inj hd
    rw [isNameChar_of_isBlank hc] at hname
    cases hname
  · rw [Option.some.inj hslash] at hc
    exact absurd hc (by decide)

/-- Nothing continues a lexeme at the end of a text. -/
theorem not_continues_nil {kind : Token.Kind} {text : List Char} :
    ¬Continues kind text [] := by
  simp [Continues]

/-- What closes a text does not continue the word in front of it. -/
theorem Closes.not_continues {final : List Char} (h : Closes final) (kind : Token.Kind)
    (text : List Char) : ¬Continues kind text final := by
  cases h with
  | blank hc _ => exact not_continues_of_isBlank hc
  | nothing => exact not_continues_nil

/-- A word that is kept apart is not continued by the next one. -/
theorem Separates.not_continues {left right : Word} {layout : List Char}
    (h : Separates left right layout) (hright : InClass right.kind right.lexeme.toList)
    (rest : List Char) :
    ¬Continues left.kind left.lexeme.toList (layout++(right.lexeme.toList++rest)) := by
  cases h with
  | blank hc _ => exact not_continues_of_isBlank hc
  | nothing hname hslash =>
    obtain ⟨c,others,hc⟩ := List.exists_cons_of_ne_nil (ne_nil_of_inClass hright)
    rw [List.nil_append,hc]
    rintro (⟨hsymbol,d,hd,hdname⟩|⟨hleft,hd⟩)
    · exact hname ⟨hsymbol,d,by rw [hc]; exact hd,hdname⟩
    · have hright' := eq_slash_of_inClass hright (by rw [hc]; exact hd)
      exact hslash ⟨String.toList_inj.mp hleft,String.toList_inj.mp hright'⟩

/-- What stands between two words is layout. -/
theorem Separates.layout {left right : Word} {layout : List Char}
    (h : Separates left right layout) : Layout layout := by
  cases h with
  | blank hc h => exact .blank hc h
  | nothing => exact .nothing

/-- Layout stands in front of every word that is kept apart from the one before it. -/
theorem layout_of_separated {p : Placed} {placed : List Placed}
    (h : (p::placed).IsChain fun p q => Separates p.word q.word q.layout) :
    ∀ q ∈ placed, Layout q.layout := by
  induction placed generalizing p with
  | nil => exact fun _ hq => absurd hq List.not_mem_nil
  | cons q placed ih =>
    obtain ⟨hseparates,htail⟩ := List.isChain_cons_cons.mp h
    exact List.forall_mem_cons.mpr ⟨hseparates.layout,ih htail⟩

/-- Behind a printed word the others are printed, with any layout in front of them. -/
theorem Printed.tail {p : Placed} {placed : List Placed} {final : List Char}
    (h : Printed (p::placed) final) : Printed placed final where
  inClass := (List.forall_mem_cons.mp h.inClass).2
  first q hq := layout_of_separated h.separated q (List.mem_of_mem_head? hq)
  separated := h.separated.tail
  final := ⟨h.final.1,fun _ => h.final.2 (List.cons_ne_nil p placed)⟩

/-- Printed words are legible. -/
theorem Printed.legible {placed : List Placed} {final : List Char} (h : Printed placed final) :
    Legible final placed := by
  induction placed with
  | nil => exact h.final.1
  | cons p placed ih =>
    refine ⟨h.first p rfl,h.inClass p List.mem_cons_self,?_,ih h.tail⟩
    cases placed with
    | nil => exact (h.final.2 (List.cons_ne_nil p [])).not_continues _ _
    | cons q placed =>
      have hseparates := (List.isChain_cons_cons.mp h.separated).1
      exact hseparates.not_continues (h.tail.inClass q List.mem_cons_self) _

/-- Words with one space in front of each but the first. -/
def spaced : List Word → List Placed
  | [] => []
  | w::words => ⟨[],w⟩::words.map fun w => ⟨[' '],w⟩

/-- Spacing words keeps them. -/
@[simp] theorem map_word_spaced (words : List Word) : (spaced words).map (·.word) = words := by
  cases words with
  | nil => rfl
  | cons w words => simp [spaced,Function.comp_def]

/-- Lexemes can be printed with single spaces. -/
theorem printed_spaced {words : List Word}
    (h : ∀ w ∈ words, InClass w.kind w.lexeme.toList) : Printed (spaced words) [] where
  inClass p hp := by
    have hw : p.word ∈ (spaced words).map (·.word) := List.mem_map_of_mem hp
    rw [map_word_spaced] at hw
    exact h _ hw
  first p hp := by
    cases words with
    | nil => cases hp
    | cons w words =>
      obtain rfl := Option.some.inj hp
      exact .nothing
  separated := by
    cases words with
    | nil => exact .nil
    | cons w words =>
      refine List.isChain_cons.mpr ⟨fun q hq => ?_,?_⟩
      · obtain ⟨v,_,rfl⟩ := List.mem_map.mp (List.mem_of_mem_head? hq)
        exact .blank rfl .nothing
      · rw [List.isChain_map]
        exact (List.pairwise_of_forall fun _ _ => .blank rfl .nothing).isChain
  final := ⟨.closed .nothing,fun _ => .nothing⟩

/-- Reading what has been printed gives back the words, whatever they are and whatever
stands between them. The words of a text are lexemes of their kinds, and the text is
these words with layout around them, none of which is continued by what stands behind
it. Printing them again, with single spaces, gives a text with the same words. -/
theorem words_of_printed :
    (∀ (placed : List Placed) (final : List Char) (text : String), Printed placed final →
      text.toList = written placed final →
      (tokens text).map Token.word = placed.map (·.word)) ∧
    ∀ text : String,
      (∀ t ∈ tokens text, InClass t.kind t.lexeme.toList) ∧
      (∃ placed final, text.toList = written placed final ∧ Legible final placed ∧
        placed.map (·.word) = (tokens text).map Token.word) ∧
      Printed (spaced ((tokens text).map Token.word)) [] ∧
      (tokens (String.ofList (written (spaced ((tokens text).map Token.word)) []))).map
        Token.word = (tokens text).map Token.word := by
  refine ⟨fun placed final text h ht => words_tokens ht h.legible,fun text => ?_⟩
  have hclass : ∀ w ∈ (tokens text).map Token.word, InClass w.kind w.lexeme.toList :=
    List.forall_mem_map.mpr fun t ht => inClass_of_mem_tokens ht
  have hprinted := printed_spaced hclass
  obtain ⟨placed,final,ht,hlegible⟩ := exists_legible text.toList
  refine ⟨fun t h => inClass_of_mem_tokens h,?_,hprinted,?_⟩
  · exact ⟨placed,final,ht,hlegible,(words_tokens ht hlegible).symm⟩
  · rw [words_tokens String.toList_ofList hprinted.legible,map_word_spaced]

/-- A name, a comment behind a blank, a name that ends where a stray character comes,
and slashes that a space keeps apart. -/
theorem words_of_printed_slashes :
    (tokens "a\t// b\nC_1/ /é //").map Token.word =
      [⟨.nonTerminal,"a"⟩,⟨.terminal,"C_1"⟩,⟨.error,"/"⟩,⟨.error,"/"⟩,⟨.error,"é"⟩] := by
  have hcomment : Layout ['/','/',' ','b','\n'] :=
    @Layout.comment [' ','b'] [] (by simp [isCommentChar]) .nothing
  have hprinted : Printed [⟨[],.nonTerminal,"a"⟩,
      ⟨['\t','/','/',' ','b','\n'],.terminal,"C_1"⟩,⟨[],.error,"/"⟩,⟨[' '],.error,"/"⟩,
      ⟨[],.error,"é"⟩] [' ','/','/'] := {
    inClass := by
      simp [InClass]
      decide +kernel
    first := by simp [Layout.nothing]
    separated := by
      refine List.isChain_cons_cons.mpr ⟨.blank rfl hcomment,?_⟩
      refine List.isChain_cons_cons.mpr ⟨.nothing ?_ (by decide),?_⟩
      · rintro ⟨_,c,hc,hname⟩
        obtain rfl : '/' = c := Option.some.inj hc
        exact absurd hname (by decide)
      refine List.isChain_cons_cons.mpr ⟨.blank rfl .nothing,?_⟩
      exact List.isChain_cons_cons.mpr
        ⟨.nothing (by simp [Word.IsSymbol]) (by decide),.singleton _⟩
    final := by
      have hfinal : FinalLayout ['/','/'] := .opened .nothing (by simp)
      exact ⟨.append (.blank rfl .nothing) hfinal,fun _ => .blank rfl hfinal⟩ }
  exact words_of_printed.1 _ _ _ hprinted (by decide +kernel)

end GrammarCensus
