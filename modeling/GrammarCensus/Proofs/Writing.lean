import GrammarCensus.Proofs.Layout

/-!
# Written texts

A text written word by word, with layout in front of each word and at its end.
Where no word is continued by what stands behind it, reading the text gives back
exactly these words, each of them in the place where it was put. The words come
from anywhere, so nothing here depends on the syntax of specifications.
-/

namespace GrammarCensus

open Lexicon

/-- A word and the layout in front of it. -/
structure Placed where
  /-- What separates the word from the one before it. -/
  layout : List Char
  /-- The word. -/
  word : Word
deriving Repr, DecidableEq, Inhabited

/-- The text of placed words, one after the other, and then of a last stretch. -/
def written : List Placed → List Char → List Char
  | [],final => final
  | p::placed,final => p.layout++(p.word.lexeme.toList++written placed final)

/-- Placed words are legible when what separates them is layout, and each of them
is a lexeme of its kind that is not continued by the text behind it. -/
def Legible (final : List Char) : List Placed → Prop
  | [] => FinalLayout final
  | p::placed => Layout p.layout ∧ InClass p.word.kind p.word.lexeme.toList ∧
      ¬Continues p.word.kind p.word.lexeme.toList (written placed final) ∧ Legible final placed

/-- The position of a word in the text of placed words, which is that behind all
words before it and behind its own layout. -/
def placeOf (placed : List Placed) (k : Nat) : Position :=
  Position.start.after (written (placed.take k) ((placed[k]?.map (·.layout)).getD []))

/-- No lexeme is of the kind of the end. -/
theorem ne_endOfInput_of_inClass {kind : Token.Kind} {text : List Char}
    (h : InClass kind text) : kind ≠ .endOfInput := by
  rintro rfl
  exact h

namespace Reader

/-- The tokens that placed words become, read from a place on. -/
def placedTokens (r : Reader) : List Placed → List Token
  | [] => []
  | p::placed =>
    (r.pass p.layout).tokenAt p.word.kind p.word.lexeme.toList::
      ((r.pass p.layout).pass p.word.lexeme.toList).placedTokens placed

/-- A legible word comes next, in its place behind the layout. -/
theorem next_of_word {r : Reader} {w : Word} {rest : List Char}
    (hr : r.rest = w.lexeme.toList++rest) (hw : InClass w.kind w.lexeme.toList)
    (hc : ¬Continues w.kind w.lexeme.toList rest) :
    r.next = (r.tokenAt w.kind w.lexeme.toList,r.pass w.lexeme.toList) := by
  have hpiece : r.piece = ⟨some w.kind,w.lexeme.toList⟩ := by
    rw [piece,hr,leading_of_inClass hw hc]
  have hkind : r.piece.kind? = some w.kind := by rw [hpiece]
  rw [next_of_kind hkind,hpiece]

/-- A legible word behind layout is the first token, and the others are read from behind it. -/
theorem tokens_of_placed {r : Reader} {p : Placed} {rest : List Char}
    (hr : r.rest = p.layout++(p.word.lexeme.toList++rest)) (hlayout : Layout p.layout)
    (hw : InClass p.word.kind p.word.lexeme.toList)
    (hc : ¬Continues p.word.kind p.word.lexeme.toList rest) :
    r.tokens = (r.pass p.layout).tokenAt p.word.kind p.word.lexeme.toList::
      ((r.pass p.layout).pass p.word.lexeme.toList).tokens := by
  have hnext := next_of_word (rest_pass hr) hw hc
  have hkind : (r.pass p.layout).next.1.kind ≠ .endOfInput := by
    rw [hnext]
    exact ne_endOfInput_of_inClass hw
  rw [tokens_pass_layout hlayout hr,tokens_of_ne_endOfInput hkind,hnext]

/-- The tokens of a legible text are its words, each in its place. -/
theorem tokens_of_legible {placed : List Placed} {final : List Char} {r : Reader}
    (hr : r.rest = written placed final) (h : Legible final placed) :
    r.tokens = r.placedTokens placed := by
  induction placed generalizing r with
  | nil =>
    have hfinal : FinalLayout r.rest := by
      rw [hr]
      exact h
    exact tokens_of_finalLayout hfinal
  | cons p placed ih =>
    obtain ⟨hlayout,hclass,hcontinues,hplaced⟩ := h
    rw [tokens_of_placed hr hlayout hclass hcontinues,ih (rest_pass (rest_pass hr)) hplaced]
    rfl

/-- The tokens of placed words are these words. -/
theorem words_placedTokens {placed : List Placed}
    (h : ∀ p ∈ placed, p.word.kind ≠ .endOfInput) (r : Reader) :
    (r.placedTokens placed).map Token.word = placed.map (·.word) := by
  induction placed generalizing r with
  | nil => rfl
  | cons p placed ih =>
    have hp := h p List.mem_cons_self
    rw [placedTokens,List.map_cons,List.map_cons,ih fun q hq => h q (List.mem_cons_of_mem p hq)]
    simp [Token.word,tokenAt,hp]

/-- The tokens of placed words lie behind all words before them and behind their
own layout. -/
theorem position_placedTokens {placed : List Placed} {k : Nat} {t : Token} {r : Reader}
    (h : (r.placedTokens placed)[k]? = some t) :
    t.position = r.position.after
      (written (placed.take k) ((placed[k]?.map (·.layout)).getD [])) := by
  induction placed generalizing r k with
  | nil => cases h
  | cons p placed ih =>
    cases k with
    | zero =>
      obtain rfl := Option.some.inj h
      rfl
    | succ k =>
      rw [placedTokens,List.getElem?_cons_succ] at h
      rw [ih h]
      simp only [List.take_succ_cons,List.getElem?_cons_succ,written,Position.after_append]
      rfl

end Reader

/-- The kinds and lexemes in legible words are those of their classes. -/
theorem Legible.inClass {final : List Char} {placed : List Placed} (h : Legible final placed)
    {p : Placed} (hp : p ∈ placed) : InClass p.word.kind p.word.lexeme.toList := by
  induction placed with
  | nil => cases hp
  | cons q placed ih =>
    obtain ⟨_,hclass,_,hplaced⟩ := h
    rcases List.mem_cons.mp hp with rfl|hp
    · exact hclass
    · exact ih hplaced hp

/-- The tokens of a legible text are its words. -/
theorem words_tokens {text : String} {placed : List Placed} {final : List Char}
    (ht : text.toList = written placed final) (h : Legible final placed) :
    (tokens text).map Token.word = placed.map (·.word) := by
  have hr : (Reader.ofText text).rest = written placed final := ht
  rw [tokens,Reader.tokens_of_legible hr h]
  exact Reader.words_placedTokens (fun p hp => ne_endOfInput_of_inClass (h.inClass hp)) _

/-- Each word of a legible text has the position at which it was put. -/
theorem position_of_legible {text : String} {placed : List Placed} {final : List Char}
    (ht : text.toList = written placed final) (h : Legible final placed) {k : Nat} {t : Token}
    (hk : (tokens text)[k]? = some t) : t.position = placeOf placed k := by
  have hr : (Reader.ofText text).rest = written placed final := ht
  rw [tokens,Reader.tokens_of_legible hr h] at hk
  exact Reader.position_placedTokens hk

end GrammarCensus
