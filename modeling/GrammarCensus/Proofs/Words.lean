import GrammarCensus.Token.Lexicon

/-!
# Words

A word is a kind and a lexeme without a place. Which lexemes a kind has is said
here on its own, one class of texts for each kind, and not by the lexical rules.
The main statement joins the two: a lexeme of the class of its kind is the piece
that the rules find, unless what stands behind it continues it.
-/

namespace GrammarCensus

/-- A kind and the word of that kind, wherever it stands. -/
structure Word where
  /-- What the word is to the syntax. -/
  kind : Token.Kind
  /-- The word itself. -/
  lexeme : String
deriving Repr, DecidableEq, Inhabited

/-- The word that a token is. -/
def Token.word (t : Token) : Word := ⟨t.kind,t.lexeme⟩

/-- The kinds of the words of tokens are those of the tokens. -/
theorem kinds_words (tokens : List Token) :
    (tokens.map Token.word).map (·.kind) = tokens.map (·.kind) :=
  List.map_map

namespace Lexicon

/-- A name: a character of the given class, and then letters, digits and underscores. -/
def IsName (first : Char → Bool) (text : List Char) : Prop :=
  ∃ c rest, text = c::rest ∧ first c ∧ ∀ d ∈ rest, isNameChar d

/-- A name by its first character and the others. -/
theorem isName_cons {first : Char → Bool} {c : Char} {rest : List Char} :
    first c = true ∧ rest.all isNameChar = true ↔ IsName first (c::rest) := by
  rw [List.all_eq_true]
  constructor
  · rintro ⟨hc,hrest⟩
    exact ⟨c,rest,rfl,hc,hrest⟩
  · rintro ⟨_,_,heq,hc,hrest⟩
    obtain ⟨rfl,rfl⟩ := List.cons.inj heq
    exact ⟨hc,hrest⟩

/-- Whether a text is a name is decided by going through its characters. -/
instance (first : Char → Bool) : (text : List Char) → Decidable (IsName first text)
  | [] => isFalse fun ⟨_,_,h,_⟩ => List.cons_ne_nil _ _ h.symm
  | _::_ => decidable_of_iff _ isName_cons

/-- The texts that are lexemes of a kind. The end of the text is none. -/
def InClass : Token.Kind → List Char → Prop
  | .endOfInput,_ => False
  | .colon,text => text = [':']
  | .pipe,text => text = ['|']
  | .semicolon,text => text = [';']
  | .nonTerminal,text => IsName isLower text
  | .terminal,text => IsName isUpper text
  | .error,text => ∃ c, text = [c] ∧ isBlank c = false ∧ isLower c = false ∧
      isUpper c = false ∧ c ≠ ':' ∧ c ≠ '|' ∧ c ≠ ';'

/-- What stands behind a lexeme continues it: another character of a name, or the
second slash of a comment. -/
def Continues (kind : Token.Kind) (text rest : List Char) : Prop :=
  (kind = .nonTerminal ∨ kind = .terminal) ∧ (∃ c, rest.head? = some c ∧ isNameChar c) ∨
    text = ['/'] ∧ rest.head? = some '/'

/-- The characters of a class up to one that is not in it. -/
theorem takeWhile_of_head {p : Char → Bool} {text rest : List Char} (ht : ∀ c ∈ text, p c)
    (hr : ∀ c, rest.head? = some c → p c = false) : (text++rest).takeWhile p = text := by
  rw [List.takeWhile_append_of_pos ht]
  cases rest with
  | nil => rw [List.takeWhile_nil,List.append_nil]
  | cons c rest => rw [List.takeWhile_cons,hr c rfl,if_neg (by decide),List.append_nil]

/-- A blank belongs to no name. -/
theorem isNameChar_of_isBlank {c : Char} (h : isBlank c) : isNameChar c = false := by
  simp only [isBlank,Bool.or_eq_true,decide_eq_true_eq] at h
  rcases h with ((((rfl|rfl)|rfl)|rfl)|rfl)|rfl <;> decide

/-- A letter that may begin the name of a non-terminal belongs to names. -/
theorem isNameChar_of_isLower {c : Char} (h : isLower c) : isNameChar c := by
  simp [isNameChar,h]

/-- A letter that may begin the name of a terminal belongs to names. -/
theorem isNameChar_of_isUpper {c : Char} (h : isUpper c) : isNameChar c := by
  simp [isNameChar,h]

/-- A character of a name is no blank, no slash and none of the signs. -/
theorem ne_of_isNameChar {c : Char} (h : isNameChar c) :
    isBlank c = false ∧ c ≠ '/' ∧ c ≠ ':' ∧ c ≠ '|' ∧ c ≠ ';' := by
  have hne {d : Char} (hd : isNameChar d = false) : c ≠ d := by
    rintro rfl
    rw [h] at hd
    cases hd
  refine ⟨?_,hne (by decide),hne (by decide),hne (by decide),hne (by decide)⟩
  cases hb : isBlank c with
  | false => rfl
  | true =>
    rw [isNameChar_of_isBlank hb] at h
    cases h

/-- No lexeme has a blank in it. -/
theorem isBlank_of_inClass {kind : Token.Kind} {text : List Char} (h : InClass kind text)
    {c : Char} (hc : c ∈ text) : isBlank c = false := by
  have hsign {d : Char} (htext : text = [d]) (hd : isBlank d = false) : isBlank c = false := by
    rw [htext,List.mem_singleton] at hc
    rwa [hc]
  have hname {first : Char → Bool} (hfirst : ∀ d, first d → isNameChar d)
      (htext : IsName first text) : isBlank c = false := by
    obtain ⟨d,rest,rfl,hd,hrest⟩ := htext
    rcases List.mem_cons.mp hc with rfl|hc
    · exact (ne_of_isNameChar (hfirst _ hd)).1
    · exact (ne_of_isNameChar (hrest c hc)).1
  cases kind with
  | endOfInput => exact h.elim
  | colon => exact hsign h (by decide)
  | pipe => exact hsign h (by decide)
  | semicolon => exact hsign h (by decide)
  | nonTerminal => exact hname (fun _ => isNameChar_of_isLower) h
  | terminal => exact hname (fun _ => isNameChar_of_isUpper) h
  | error =>
    obtain ⟨d,htext,hd,_⟩ := h
    exact hsign htext hd

/-- No letter begins both kinds of names. -/
theorem isLower_of_isUpper {c : Char} (h : isUpper c) : isLower c = false := by
  rw [isUpper,Bool.and_eq_true,decide_eq_true_eq,decide_eq_true_eq] at h
  rw [isLower,Bool.and_eq_false_iff,decide_eq_false_iff_not]
  exact Or.inl fun ha => absurd (Char.le_trans ha h.2) (by decide)

/-- A lexeme is the piece with which a text begins, unless what stands behind it
continues it. -/
theorem leading_of_inClass {kind : Token.Kind} {text rest : List Char}
    (h : InClass kind text) (hc : ¬Continues kind text rest) :
    leading (text++rest) = ⟨some kind,text⟩ := by
  rw [Continues,not_or] at hc
  obtain ⟨hname,hslash⟩ := hc
  have hstop (hk : kind = .nonTerminal ∨ kind = .terminal) :
      ∀ c, rest.head? = some c → isNameChar c = false := by
    intro c hc
    cases hn : isNameChar c with
    | false => rfl
    | true => exact absurd ⟨hk,c,hc,hn⟩ hname
  cases kind with
  | endOfInput => cases h
  | colon =>
    obtain rfl := h
    rw [List.singleton_append,leading_cons,if_neg (by decide),if_neg (by simp),if_pos rfl]
  | pipe =>
    obtain rfl := h
    rw [List.singleton_append,leading_cons,if_neg (by decide),if_neg (by simp),
      if_neg (by decide),if_pos rfl]
  | semicolon =>
    obtain rfl := h
    rw [List.singleton_append,leading_cons,if_neg (by decide),if_neg (by simp),
      if_neg (by decide),if_neg (by decide),if_pos rfl]
  | nonTerminal =>
    obtain ⟨c,others,rfl,hl,ho⟩ := h
    obtain ⟨hblank,hcomment,hcolon,hpipe,hsemicolon⟩ := ne_of_isNameChar (isNameChar_of_isLower hl)
    rw [List.cons_append,leading_cons,if_neg (by simp [hblank]),if_neg (fun h => hcomment h.1),
      if_neg hcolon,if_neg hpipe,if_neg hsemicolon,if_pos hl,
      takeWhile_of_head ho (hstop (Or.inl rfl))]
  | terminal =>
    obtain ⟨c,others,rfl,hu,ho⟩ := h
    obtain ⟨hblank,hcomment,hcolon,hpipe,hsemicolon⟩ := ne_of_isNameChar (isNameChar_of_isUpper hu)
    rw [List.cons_append,leading_cons,if_neg (by simp [hblank]),if_neg (fun h => hcomment h.1),
      if_neg hcolon,if_neg hpipe,if_neg hsemicolon,if_neg (by simp [isLower_of_isUpper hu]),
      if_pos hu,takeWhile_of_head ho (hstop (Or.inr rfl))]
  | error =>
    obtain ⟨c,rfl,hblank,hl,hu,hcolon,hpipe,hsemicolon⟩ := h
    have hcomment : ¬(c = '/' ∧ rest.head? = some '/') := by
      rintro ⟨rfl,hr⟩
      exact hslash ⟨rfl,hr⟩
    rw [List.singleton_append,leading_cons,if_neg (by simp [hblank]),if_neg hcomment,
      if_neg hcolon,if_neg hpipe,if_neg hsemicolon,if_neg (by simp [hl]),if_neg (by simp [hu])]

end Lexicon

open Lexicon

/-- A word is a name of either kind. -/
def Word.IsSymbol (w : Word) : Prop :=
  w.kind = .nonTerminal ∨ w.kind = .terminal

/-- A word has a lexeme of its kind, and is no stray character. -/
def Word.IsLexical (w : Word) : Prop :=
  InClass w.kind w.lexeme.toList ∧ w.kind ≠ .error

/-- A lexical word does not begin with a slash, and with a character of a name only
if it is a name. -/
theorem Word.IsLexical.eq_cons {w : Word} (h : w.IsLexical) :
    ∃ c rest, w.lexeme.toList = c::rest ∧ c ≠ '/' ∧ (isNameChar c → w.IsSymbol) := by
  obtain ⟨kind,lexeme⟩ := w
  obtain ⟨hclass,herror⟩ := h
  cases kind with
  | nonTerminal =>
    obtain ⟨c,rest,hw,hc,_⟩ := hclass
    have hslash := (ne_of_isNameChar (isNameChar_of_isLower hc)).2.1
    exact ⟨c,rest,hw,hslash,fun _ => Or.inl rfl⟩
  | terminal =>
    obtain ⟨c,rest,hw,hc,_⟩ := hclass
    have hslash := (ne_of_isNameChar (isNameChar_of_isUpper hc)).2.1
    exact ⟨c,rest,hw,hslash,fun _ => Or.inr rfl⟩
  | error => exact absurd rfl herror
  | endOfInput => cases hclass
  | colon | pipe | semicolon => exact ⟨_,[],hclass,by decide,fun hc => absurd hc (by decide)⟩

end GrammarCensus
