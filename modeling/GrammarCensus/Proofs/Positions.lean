import Mathlib.Data.List.DropRight
import GrammarCensus.Proofs.Tiling

/-!
# Positions and offsets

A token has two records of its place, the position that the reader carried along
and the offset in bytes. The position of an offset is counted anew from the
beginning of the text. The main statement is that both agree for every reading,
whatever was passed over on the way, and that successive tokens lie one behind
the other.
-/

namespace GrammarCensus

namespace Position

/-- The line counts the newlines of a text, and the column the characters behind
the last of them. -/
theorem start_after (text : List Char) :
    start.after text = ⟨1+text.count '\n',1+(text.rtakeWhile (· ≠ '\n')).length⟩ := by
  induction text using List.reverseRecOn with
  | nil => rfl
  | append_singleton text c ih =>
    have hlast : start.after (text++[c]) = (start.after text).step c := after_append ..
    rw [hlast,ih,step,List.count_append]
    by_cases hc : c = '\n'
    · have hbreak : (text++[c]).rtakeWhile (· ≠ '\n') = [] :=
        List.rtakeWhile_concat_neg _ _ _ (by simp [hc])
      rw [if_pos hc,hbreak,hc,List.count_singleton_self]
      rfl
    · have hmore : (text++[c]).rtakeWhile (· ≠ '\n') = text.rtakeWhile (· ≠ '\n')++[c] :=
        List.rtakeWhile_concat_pos _ _ _ (by simp [hc])
      have hnone : [c].count '\n' = 0 := by simp [hc]
      rw [if_neg hc,hmore,hnone,List.length_append]
      rfl

end Position

/-- A token has the position of its offset in a text. -/
structure Token.LiesIn (t : Token) (text : List Char) : Prop where
  /-- Counting anew up to the offset gives the position. -/
  ofOffset : t.position = Position.ofOffset text t.span.start
  /-- The text in front of the token has as many bytes as the offset says, one newline
  less than the line, and one character less than the column behind the last newline. -/
  counted : ∃ front rest, text = front++rest ∧ byteLength front = t.span.start ∧
    t.position.line = 1+front.count '\n' ∧
    t.position.column = 1+(front.rtakeWhile (· ≠ '\n')).length

/-- A token at the end of a part in front of a text lies there. -/
theorem Token.liesIn_append {t : Token} {front rest : List Char}
    (hstart : t.span.start = byteLength front)
    (hposition : t.position = Position.start.after front) : t.LiesIn (front++rest) where
  ofOffset := by rw [hstart,Position.ofOffset_byteLength,hposition]
  counted := by
    rw [hposition,Position.start_after]
    exact ⟨front,rest,rfl,hstart.symm,rfl,rfl⟩

/-- All tokens of a text lie in it, the end included. -/
theorem liesIn_of_mem_allTokens {text : String} {t : Token} (h : t ∈ allTokens text) :
    t.LiesIn text.toList := by
  rcases List.mem_append.mp h with h|h
  · obtain ⟨front,rest,hsplit,hspan,hposition⟩ := exists_split_of_mem_tokens h
    have hstart : t.span.start = byteLength front := by rw [hspan]
    rw [hsplit]
    exact Token.liesIn_append hstart hposition
  · obtain rfl := List.mem_singleton.mp h
    have hstart : (endToken text).span.start = byteLength text.toList := by rw [endToken_span]
    have hlies : (endToken text).LiesIn (text.toList++[]) := Token.liesIn_append hstart rfl
    rwa [List.append_nil] at hlies

/-- Every reading of a text, at the end too, gives a token whose position is that of its
offset, and every reading behind a token other than the end gives one that lies further
on. -/
theorem reading_liesIn (text : String) :
    (∀ n, (reading text n).LiesIn text.toList) ∧
    ∀ m n, m < n → (reading text m).kind ≠ .endOfInput →
      (reading text m).position < (reading text n).position := by
  constructor
  · intro n
    exact liesIn_of_mem_allTokens (List.mem_of_getElem? (getElem?_allTokens_min text n))
  · intro m n hmn hkind
    have hm := getElem?_allTokens_min text m
    have hn := getElem?_allTokens_min text n
    have hlt : m < (tokens text).length := by
      by_contra hle
      rw [Nat.min_eq_right (Nat.le_of_not_lt hle),allTokens,List.getElem?_concat_length] at hm
      rw [←Option.some.inj hm] at hkind
      exact hkind rfl
    exact position_lt_of_lt (by omega) hm hn

/-- A stray character of two bytes, and a name behind a comment with another one, a newline
and a tab. -/
theorem reading_liesIn_multibyte :
    (reading "é // é\n\tb" 1).position = ⟨2,2⟩ ∧
    Position.ofOffset "é // é\n\tb".toList 10 = ⟨2,2⟩ ∧
    (reading "é // é\n\tb" 0).position < (reading "é // é\n\tb" 1).position := by
  obtain ⟨hlies,hlt⟩ := reading_liesIn "é // é\n\tb"
  have hposition : (reading "é // é\n\tb" 1).position = ⟨2,2⟩ := by decide +kernel
  have hstart : (reading "é // é\n\tb" 1).span.start = 10 := by decide +kernel
  have hoffset := (hlies 1).ofOffset
  rw [hposition,hstart] at hoffset
  exact ⟨hposition,hoffset.symm,hlt 0 1 (by decide) (by decide +kernel)⟩

end GrammarCensus
