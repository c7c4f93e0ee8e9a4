import Mathlib.Logic.Function.Iterate
import Mathlib.Order.Defs.PartialOrder
import GrammarCensus.Token.Reader

/-!
# Reading all tokens

What holds of all tokens that a reader gives, by going from each token to the
next. None of them is the end of the text, and each one lies behind the one
before it, the end of the text being last of all.
-/

namespace GrammarCensus

namespace Position

/-- The order of positions by their two numbers. -/
theorem le_iff {p q : Position} :
    p ≤ q ↔ p.line < q.line ∨ p.line = q.line ∧ p.column ≤ q.column := Iff.rfl

/-- The strict order of positions by their two numbers. -/
theorem lt_iff {p q : Position} :
    p < q ↔ p.line < q.line ∨ p.line = q.line ∧ p.column < q.column := Iff.rfl

/-- Positions are ordered by their lines, and on one line by their columns. -/
instance : PartialOrder Position where
  le_refl p := Or.inr ⟨rfl,Nat.le_refl _⟩
  le_trans p q r hpq hqr := by
    rw [le_iff] at hpq hqr ⊢
    omega
  le_antisymm p q hpq hqp := by
    rw [le_iff] at hpq hqp
    have hline : p.line = q.line := by omega
    have hcolumn : p.column = q.column := by omega
    cases p
    cases q
    rw [mk.injEq]
    exact ⟨hline,hcolumn⟩
  lt_iff_le_not_ge p q := by
    rw [le_iff,le_iff,lt_iff]
    omega

/-- Passing a text never moves a position back. -/
theorem le_after (p : Position) (text : List Char) : p ≤ p.after text := by
  induction text generalizing p with
  | nil => exact le_refl p
  | cons c text ih => exact le_trans (le_of_lt (lt_step p c)) (ih (p.step c))

/-- Passing a text that is not empty moves a position forward. -/
theorem lt_after (p : Position) {text : List Char} (h : text ≠ []) : p < p.after text := by
  cases text with
  | nil => exact absurd rfl h
  | cons c text => exact lt_of_lt_of_le (lt_step p c) (le_after (p.step c) text)

/-- A budget of just the bytes of a part in front takes that part. -/
theorem beginning_byteLength (front rest : List Char) :
    beginning (byteLength front) (front++rest) = front := by
  induction front with
  | nil =>
    cases rest with
    | nil => rfl
    | cons c rest =>
      have hpos := c.utf8Size_pos
      exact if_neg (by rw [byteLength_nil]; omega)
  | cons c front ih =>
    have hle : c.utf8Size ≤ byteLength (c::front) := Nat.le_add_right ..
    rw [List.cons_append,beginning,if_pos hle,byteLength_cons,Nat.add_sub_cancel_left,ih]

/-- The offset behind a part in front of a text is the position that the part leads to. -/
theorem ofOffset_byteLength (front rest : List Char) :
    ofOffset (front++rest) (byteLength front) = start.after front := by
  rw [ofOffset,beginning_byteLength]

end Position

namespace Reader

/-- What holds where the end comes next, and of a token and those behind it where
it holds of those, holds of all tokens. -/
theorem tokens_induction {motive : Reader → List Token → Prop}
    (endOfInput : ∀ r : Reader, r.next.1.kind = .endOfInput → motive r [])
    (token : ∀ r : Reader, r.next.1.kind ≠ .endOfInput →
      motive r.next.2 r.next.2.tokens → motive r (r.next.1::r.next.2.tokens))
    (r : Reader) : motive r r.tokens := by
  induction hn : r.rest.length using Nat.strongRecOn generalizing r with
  | ind n ih =>
    by_cases h : r.next.1.kind = .endOfInput
    · rw [tokens_of_endOfInput h]
      exact endOfInput r h
    · rw [tokens_of_ne_endOfInput h]
      have hlt := next_length h
      exact token r h (ih _ (hn ▸ hlt) r.next.2 rfl)

/-- No token but the end itself is of the kind of the end. -/
theorem kind_ne_of_mem_tokens {r : Reader} {t : Token} (h : t ∈ r.tokens) :
    t.kind ≠ .endOfInput := by
  induction r using tokens_induction with
  | endOfInput r hr => cases h
  | token r hr ih =>
    rcases List.mem_cons.mp h with rfl|h
    · exact hr
    · exact ih h

/-- A piece in a place where the text goes on is not empty. -/
theorem piece_text_ne_nil {r : Reader} {kind : Token.Kind} (h : r.piece.kind? = some kind)
    (hk : kind ≠ .endOfInput) : r.piece.text ≠ [] := by
  cases hr : r.rest with
  | nil =>
    rw [piece,hr,Lexicon.leading_nil,Option.some.injEq] at h
    exact absurd h.symm hk
  | cons c text =>
    rw [piece,hr]
    exact Lexicon.leading_cons_ne_nil c text

/-- The next token does not lie before the place from which it is read. -/
theorem position_le_next (r : Reader) : r.position ≤ r.next.1.position := by
  fun_induction next r with
  | case1 r h _ ih => exact le_trans (Position.le_after ..) ih
  | case2 r kind h => exact le_refl _

/-- Reading a token other than the end leads behind the place where it lies. -/
theorem next_position_lt {r : Reader} (h : r.next.1.kind ≠ .endOfInput) :
    r.next.1.position < r.next.2.position := by
  fun_induction next r with
  | case1 r hk _ ih => exact ih h
  | case2 r kind hk => exact Position.lt_after _ (piece_text_ne_nil hk h)

/-- Reading a token does not change the token of the end. -/
theorem endToken_next (r : Reader) : r.next.2.endToken = r.endToken := by
  rw [endToken,atEnd_next,endToken]

/-- The tokens and the end lie one behind the other, and none of them before the
place from which they are read. -/
theorem pairwise_position (r : Reader) :
    (∀ t ∈ r.tokens++[r.endToken], r.position ≤ t.position) ∧
      (r.tokens++[r.endToken]).Pairwise fun t u => t.position < u.position := by
  induction r using tokens_induction with
  | endOfInput r hr =>
    refine ⟨fun t ht => ?_,List.pairwise_singleton ..⟩
    obtain rfl := List.mem_singleton.mp ht
    exact Position.le_after ..
  | token r hr ih =>
    obtain ⟨hle,hpairwise⟩ := ih
    have hlt := next_position_lt hr
    rw [endToken_next] at hle hpairwise
    constructor
    · intro t ht
      rcases List.mem_cons.mp ht with rfl|ht
      · exact position_le_next r
      · exact le_trans (position_le_next r) (le_trans (le_of_lt hlt) (hle t ht))
    · exact List.pairwise_cons.mpr ⟨fun t ht => lt_of_lt_of_le hlt (hle t ht),hpairwise⟩

/-- At the end of the text the end is read, again and again. -/
theorem next_atEnd (r : Reader) : r.atEnd.next = (r.endToken,r.atEnd) := by
  have hkind : r.atEnd.piece.kind? = some .endOfInput := rfl
  exact next_of_kind hkind

/-- Going on behind a number of tokens is reading as often, at the end too. -/
theorem skip_eq_iterate (r : Reader) (n : Nat) : r.skip n = (fun r => r.next.2)^[n] r := by
  induction n generalizing r with
  | zero => rfl
  | succ n ih =>
    rw [Function.iterate_succ_apply]
    by_cases hr : r.next.1.kind = .endOfInput
    · have hskip : r.skip (n+1) = r.next.2 := if_pos hr
      have hagain : r.atEnd.next.2 = r.atEnd := congrArg Prod.snd (next_atEnd r)
      rw [hskip,next_of_endOfInput hr]
      exact (Function.iterate_fixed hagain n).symm
    · have hskip : r.skip (n+1) = r.next.2.skip n := if_neg hr
      rw [hskip,ih]

/-- After a number of readings the token in that place comes next, and after more
readings than there are tokens the end does. -/
theorem getElem?_min_length (r : Reader) (n : Nat) :
    (r.tokens++[r.endToken])[min n r.tokens.length]? = some (r.skip n).next.1 := by
  induction r using tokens_induction generalizing n with
  | endOfInput r hr =>
    have hnext := next_of_endOfInput hr
    have hskip : (r.skip n).next.1 = r.endToken := by
      cases n with
      | zero => rw [skip,hnext]
      | succ n =>
        rw [skip,hnext]
        exact congrArg Prod.fst (next_atEnd r)
    rw [List.length_nil,Nat.min_zero,hskip]
    rfl
  | token r hr ih =>
    cases n with
    | zero =>
      rw [Nat.zero_min]
      rfl
    | succ n =>
      have hskip : r.skip (n+1) = r.next.2.skip n := if_neg hr
      have hbehind := ih n
      rw [endToken_next] at hbehind
      rw [List.length_cons,Nat.succ_min_succ,List.cons_append,List.getElem?_cons_succ,hskip,
        hbehind]

/-- A token in some place among all tokens is the one that is read after as many
others. -/
theorem next_skip {r : Reader} {n : Nat} {t : Token}
    (h : (r.tokens++[r.endToken])[n]? = some t) : (r.skip n).next.1 = t := by
  have hlt := (List.getElem?_eq_some_iff.mp h).1
  rw [List.length_append,List.length_singleton] at hlt
  have hread := getElem?_min_length r n
  rw [Nat.min_eq_left (by omega),h] at hread
  exact (Option.some.inj hread).symm

end Reader

/-- Among all tokens of a text each one lies behind the one before it. -/
theorem pairwise_position_allTokens (text : String) :
    (allTokens text).Pairwise fun t u => t.position < u.position :=
  (Reader.pairwise_position _).2

/-- Of two tokens of a text the earlier one lies before the later one. -/
theorem position_lt_of_lt {text : String} {i j : Nat} {t u : Token} (h : i < j)
    (ht : (allTokens text)[i]? = some t) (hu : (allTokens text)[j]? = some u) :
    t.position < u.position := by
  obtain ⟨hi,rfl⟩ := List.getElem?_eq_some_iff.mp ht
  obtain ⟨hj,rfl⟩ := List.getElem?_eq_some_iff.mp hu
  exact List.pairwise_iff_getElem.mp (pairwise_position_allTokens text) i j hi hj h

/-- No two places among all tokens of a text have one position. -/
theorem eq_of_position_eq {text : String} {i j : Nat} {t u : Token}
    (ht : (allTokens text)[i]? = some t) (hu : (allTokens text)[j]? = some u)
    (h : t.position = u.position) : i = j := by
  rcases Nat.lt_trichotomy i j with hij|hij|hij
  · exact absurd h (ne_of_lt (position_lt_of_lt hij ht hu))
  · exact hij
  · exact absurd h.symm (ne_of_lt (position_lt_of_lt hij hu ht))

/-- All tokens of a text are what successive readings give, the first reading of the
end being the last of them. -/
theorem allTokens_eq_map_skip (text : String) :
    allTokens text =
      (List.range (allTokens text).length).map fun n => ((Reader.ofText text).skip n).next.1 := by
  refine List.ext_getElem (by simp) fun n hn _ => ?_
  rw [List.getElem_map,List.getElem_range]
  exact (Reader.next_skip (List.getElem?_eq_getElem hn)).symm

/-- The token that comes next in a text after a number of readings, of which any may
have been at the end. -/
def reading (text : String) (n : Nat) : Token :=
  ((fun r => r.next.2)^[n] (Reader.ofText text)).next.1

/-- Successive readings go through all tokens of a text and then stay at its end. -/
theorem getElem?_allTokens_min (text : String) (n : Nat) :
    (allTokens text)[min n (tokens text).length]? = some (reading text n) := by
  rw [reading,←Reader.skip_eq_iterate]
  exact Reader.getElem?_min_length _ _

/-- No token of a text is of the kind of its end. -/
theorem kind_ne_of_mem_tokens {text : String} {t : Token} (h : t ∈ tokens text) :
    t.kind ≠ .endOfInput :=
  Reader.kind_ne_of_mem_tokens h

end GrammarCensus
