import GrammarCensus.Proofs.Words
import GrammarCensus.Token.Reader

/-!
# Layout

The stretches of a text that separate words: blanks, and comments each of which a
newline ends. At the end of a text a comment may stay open. The main statements
are that reading past layout changes nothing but the place, whatever comes
behind it, and that nothing is left to read where only layout is left.
-/

namespace GrammarCensus

open Lexicon

/-- Blanks and closed comments, in any order. -/
inductive Layout : List Char → Prop
  /-- Nothing at all. -/
  | nothing : Layout []
  /-- A blank, and then layout. -/
  | blank {c layout} : isBlank c → Layout layout → Layout (c::layout)
  /-- A comment with the newline that ends it, and then layout. -/
  | comment {body layout} : (∀ c ∈ body, isCommentChar c) → Layout layout →
      Layout ('/' :: '/' :: (body ++ '\n' :: layout))

/-- Layout at the end of a text, whose last comment may stay open. -/
inductive FinalLayout : List Char → Prop
  /-- All comments are closed. -/
  | closed {layout} : Layout layout → FinalLayout layout
  /-- The last comment runs to the end of the text. -/
  | opened {layout body} : Layout layout → (∀ c ∈ body, isCommentChar c) →
      FinalLayout (layout ++ '/' :: '/' :: body)

/-- Layout begins with a blank or with a slash. -/
theorem Layout.head {layout : List Char} (h : Layout layout) {c : Char}
    (hc : layout.head? = some c) : isBlank c ∨ c = '/' := by
  cases h with
  | nothing => cases hc
  | blank hb _ =>
    obtain rfl := Option.some.inj hc
    exact Or.inl hb
  | comment _ _ => exact Or.inr (Option.some.inj hc).symm

/-- Layout at the end of a text begins with a blank or with a slash. -/
theorem FinalLayout.head {layout : List Char} (h : FinalLayout layout) {c : Char}
    (hc : layout.head? = some c) : isBlank c ∨ c = '/' := by
  cases h with
  | closed h => exact h.head hc
  | @opened layout body h _ =>
    cases layout with
    | nil => exact Or.inr (Option.some.inj hc).symm
    | cons d layout =>
      obtain rfl := Option.some.inj hc
      exact h.head rfl

namespace Reader

/-- Passing two pieces one after the other is passing both at once. -/
theorem pass_pass (r : Reader) (first second : List Char) :
    (r.pass first).pass second = r.pass (first++second) := by
  simp only [pass,List.drop_drop,List.length_append,byteLength_append,Position.after_append,
    Nat.add_assoc]

/-- Passing nothing stays in place. -/
@[simp] theorem pass_nil (r : Reader) : r.pass [] = r := rfl

/-- Behind a piece the rest is what stands behind it. -/
theorem rest_pass {r : Reader} {piece rest : List Char} (h : r.rest = piece++rest) :
    (r.pass piece).rest = rest := by
  rw [pass,h,List.drop_left]

/-- Where a blank comes first, it is one piece with all blanks behind it. -/
theorem piece_of_blank {r : Reader} {c : Char} {text : List Char} (hr : r.rest = c::text)
    (hc : isBlank c) : r.piece = ⟨none,c::text.takeWhile isBlank⟩ := by
  rw [piece,hr,leading_cons,if_pos hc]

/-- Where two slashes come first, they are one piece with the rest of their line. -/
theorem piece_of_comment {r : Reader} {text : List Char} (hr : r.rest = '/' :: '/' :: text) :
    r.piece = ⟨none,'/' :: '/' :: text.takeWhile isCommentChar⟩ := by
  rw [piece,hr,leading_cons,if_neg (by decide),if_pos ⟨rfl,rfl⟩,List.tail_cons]

/-- A blank does not change what comes next. -/
theorem next_pass_blank {r : Reader} {c : Char} {text : List Char} (hr : r.rest = c::text)
    (hc : isBlank c) : r.next = (r.pass [c]).next := by
  have hpiece := piece_of_blank hr hc
  have hnext : r.next = (r.pass (c::text.takeWhile isBlank)).next := by
    rw [next_of_skipped (by rw [hpiece]),hpiece]
  have hrest : (r.pass [c]).rest = text := rest_pass hr
  cases text with
  | nil => exact hnext
  | cons d text =>
    by_cases hd : isBlank d
    · -- the blanks behind the first one are one piece of their own
      have hpiece' := piece_of_blank hrest hd
      have hnext' : (r.pass [c]).next = ((r.pass [c]).pass (d::text.takeWhile isBlank)).next := by
        rw [next_of_skipped (by rw [hpiece']),hpiece']
      rw [hnext,hnext',pass_pass,List.takeWhile_cons,if_pos hd]
      rfl
    · rw [hnext,List.takeWhile_cons,if_neg hd]

/-- A comment up to the end of its line does not change what comes next. -/
theorem next_pass_comment {r : Reader} {body rest : List Char}
    (hr : r.rest = '/' :: '/' :: (body++rest)) (hb : ∀ c ∈ body, isCommentChar c)
    (hrest : ∀ c, rest.head? = some c → c = '\n') :
    r.next = (r.pass ('/' :: '/' :: body)).next := by
  have hbody : (body++rest).takeWhile isCommentChar = body :=
    takeWhile_of_head hb fun c hc => by rw [hrest c hc]; rfl
  have hpiece := piece_of_comment hr
  rw [hbody] at hpiece
  rw [next_of_skipped (by rw [hpiece]),hpiece]

/-- Layout does not change what comes next. -/
theorem next_pass_layout {layout : List Char} (h : Layout layout) {r : Reader}
    {rest : List Char} (hr : r.rest = layout++rest) : r.next = (r.pass layout).next := by
  induction h generalizing r with
  | nothing => rw [pass_nil]
  | @blank c layout hc _ ih =>
    rw [next_pass_blank hr hc,ih (rest_pass hr),pass_pass]
    rfl
  | @comment body layout hb _ ih =>
    -- the comment first, then the newline behind it, and then the layout behind that
    have hline : r.rest = ('/' :: '/' :: body) ++ '\n' :: (layout++rest) := by
      simpa using hr
    have hbehind := rest_pass hline
    rw [next_pass_comment hline hb fun c hc => (Option.some.inj hc).symm,
      next_pass_blank hbehind (by decide),ih (rest_pass hbehind),pass_pass,pass_pass]
    simp

/-- Where the same comes next the same tokens are left. -/
theorem tokens_congr {r r' : Reader} (h : r.next = r'.next) : r.tokens = r'.tokens := by
  by_cases hk : r.next.1.kind = .endOfInput
  · have hk' : r'.next.1.kind = .endOfInput := by rwa [←h]
    rw [tokens_of_endOfInput hk,tokens_of_endOfInput hk']
  · have hk' : r'.next.1.kind ≠ .endOfInput := by rwa [←h]
    rw [tokens_of_ne_endOfInput hk,tokens_of_ne_endOfInput hk',h]

/-- Layout in front does not change the tokens. -/
theorem tokens_pass_layout {layout : List Char} (h : Layout layout) {r : Reader}
    {rest : List Char} (hr : r.rest = layout++rest) : r.tokens = (r.pass layout).tokens :=
  tokens_congr (next_pass_layout h hr)

/-- Where nothing is left there are no tokens. -/
theorem tokens_of_rest_eq_nil {r : Reader} (hr : r.rest = []) : r.tokens = [] := by
  have hk : r.piece.kind? = some .endOfInput := by
    rw [piece,hr,leading_nil]
  apply tokens_of_endOfInput
  rw [next_of_kind hk]
  rfl

/-- Where only layout is left there are no tokens. -/
theorem tokens_of_finalLayout {r : Reader} (h : FinalLayout r.rest) : r.tokens = [] := by
  generalize hr : r.rest = text at h
  cases h with
  | closed h =>
    have hr' : r.rest = text++[] := by rw [hr,List.append_nil]
    rw [tokens_pass_layout h hr',tokens_of_rest_eq_nil (rest_pass hr')]
  | @opened layout body h hb =>
    have hline : (r.pass layout).rest = ('/' :: '/' :: body)++[] := by
      rw [rest_pass hr,List.append_nil]
    have hnext := next_pass_comment hline hb fun c hc => by cases hc
    rw [tokens_pass_layout h hr,tokens_congr hnext,tokens_of_rest_eq_nil (rest_pass hline)]

end Reader

end GrammarCensus
