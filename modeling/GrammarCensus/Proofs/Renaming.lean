import Mathlib.Data.List.Forall2
import Mathlib.Data.Set.Function
import GrammarCensus.Census
import GrammarCensus.Proofs.FirstError

/-!
# Renamed tokens

Two lists of tokens of the same kinds, where the non-terminals of the one are
those of the other under new names. Nothing else of the tokens has to agree,
neither the places nor the other lexemes. The main statements are that heads and
uses are renamed along, and so is everything that a survey finds, as long as
different names stay different.
-/

namespace GrammarCensus

namespace NameSet

variable {f : String → String} {s t : NameSet}

/-- The new names of the members of a set. -/
def map (f : String → String) (s : NameSet) : NameSet :=
  ofList (s.names.map f)

/-- The members of a renamed set are the new names of the members. -/
@[simp] theorem mem_map {z : String} : z ∈ s.map f ↔ ∃ x ∈ s, f x = z := by
  rw [map,mem_ofList,List.mem_map]
  rfl

/-- Only the empty set is renamed to the empty set. -/
@[simp] theorem map_eq_empty : s.map f = empty ↔ s = empty := by
  rw [←isEmpty_iff_eq_empty,←isEmpty_iff_eq_empty,isEmpty_iff,isEmpty_iff]
  simp

/-- Keeping all names keeps a set. -/
@[simp] theorem map_id : s.map id = s := by
  ext z
  simp

/-- Sets are renamed differently where different names stay different. -/
theorem eq_of_map_eq {names : Set String} (hf : Set.InjOn f names) (hs : ∀ x ∈ s, x ∈ names)
    (ht : ∀ x ∈ t, x ∈ names) (h : s.map f = t.map f) : s = t := by
  have hle {u v : NameSet} (hu : ∀ x ∈ u, x ∈ names) (hv : ∀ x ∈ v, x ∈ names)
      (h : u.map f = v.map f) {z : String} (hz : z ∈ u) : z ∈ v := by
    have hnew : f z ∈ v.map f := by
      rw [←h,mem_map]
      exact ⟨z,hz,rfl⟩
    obtain ⟨x,hx,hxz⟩ := mem_map.mp hnew
    rwa [←hf (hv x hx) (hu z hz) hxz]
  ext z
  exact ⟨hle hs ht h,hle ht hs h.symm⟩

/-- A set of names that stay different is another one if all names of that stay
different, too, and both are renamed to one set. -/
theorem eq_iff_map_eq {names : Set String} (hf : Set.InjOn f names) (hs : ∀ x ∈ s, x ∈ names) :
    s = t ↔ (∀ x ∈ t, x ∈ names) ∧ s.map f = t.map f := by
  constructor
  · rintro rfl
    exact ⟨hs,rfl⟩
  · rintro ⟨ht,h⟩
    exact eq_of_map_eq hf hs ht h

/-- What one set has and another one has not is renamed along, where different names
stay different. -/
theorem mem_map_and_not_mem_map {names : Set String} (hf : Set.InjOn f names)
    (hs : ∀ x ∈ s, x ∈ names) (ht : ∀ x ∈ t, x ∈ names) {z : String} :
    z ∈ s.map f ∧ z ∉ t.map f ↔ ∃ x, (x ∈ s ∧ x ∉ t) ∧ f x = z := by
  rw [mem_map,mem_map]
  constructor
  · rintro ⟨⟨x,hx,rfl⟩,hnot⟩
    exact ⟨x,⟨hx,fun h => hnot ⟨x,h,rfl⟩⟩,rfl⟩
  · rintro ⟨x,⟨hx,hnot⟩,rfl⟩
    refine ⟨⟨x,hx,rfl⟩,?_⟩
    rintro ⟨y,hy,hyx⟩
    rw [hf (ht y hy) (hs x hx) hyx] at hy
    exact hnot hy

end NameSet

namespace Registry

variable {f : String → String} {names : Set String} {r r' : Registry}

/-- The undefined names are renamed with the used and the defined ones. -/
theorem undefinedNames_renamed (hf : Set.InjOn f names) (hused : ∀ x ∈ r.used, x ∈ names)
    (hdefined : ∀ x ∈ r.defined, x ∈ names) (hused' : r'.used = r.used.map f)
    (hdefined' : r'.defined = r.defined.map f) :
    r'.undefinedNames = r.undefinedNames.map f := by
  have hmem (r : Registry) (z : String) : z ∈ r.undefinedNames ↔ z ∈ r.used ∧ z ∉ r.defined := by
    rw [mem_undefinedNames,mem_defined,Bool.not_eq_true]
  ext z
  rw [hmem,hused',hdefined',NameSet.mem_map_and_not_mem_map hf hused hdefined,NameSet.mem_map]
  simp only [hmem]

/-- The unused names are renamed with the used and the defined ones. -/
theorem unusedNames_renamed (hf : Set.InjOn f names) (hused : ∀ x ∈ r.used, x ∈ names)
    (hdefined : ∀ x ∈ r.defined, x ∈ names) (hused' : r'.used = r.used.map f)
    (hdefined' : r'.defined = r.defined.map f) : r'.unusedNames = r.unusedNames.map f := by
  have hmem (r : Registry) (z : String) : z ∈ r.unusedNames ↔ z ∈ r.defined ∧ z ∉ r.used := by
    rw [mem_unusedNames,hasUse,decide_eq_false_iff_not]
  ext z
  rw [hmem,hused',hdefined',NameSet.mem_map_and_not_mem_map hf hdefined hused,NameSet.mem_map]
  simp only [hmem]

end Registry

/-- The names of the non-terminals among some tokens. -/
def nonTerminalNames (tokens : List Token) : Set String :=
  {x | ∃ t ∈ tokens, t.kind = .nonTerminal ∧ t.lexeme = x}

/-- A token is of the kind of another one, and has its new name if it is a
non-terminal. -/
structure Token.Renamed (f : String → String) (t u : Token) : Prop where
  /-- The kind is kept. -/
  kind : u.kind = t.kind
  /-- A non-terminal gets its new name. -/
  lexeme : t.kind = .nonTerminal → u.lexeme = f t.lexeme

/-- Tokens are renamed one for one, and different names stay different. -/
structure Renames (f : String → String) (tokens others : List Token) : Prop where
  /-- No two names of non-terminals get the same new name. -/
  injOn : Set.InjOn f (nonTerminalNames tokens)
  /-- The tokens are renamed one for one. -/
  tokens : List.Forall₂ (Token.Renamed f) tokens others

/-- Where entries of two lists are related one for one, the other list has an entry at
each place of the one. -/
theorem exists_getElem?_of_forall₂ {α β : Type} {R : α → β → Prop} {xs : List α} {ys : List β}
    (h : List.Forall₂ R xs ys) {i : Nat} {x : α} (hx : xs[i]? = some x) :
    ∃ y, ys[i]? = some y ∧ R x y := by
  obtain ⟨hi,rfl⟩ := List.getElem?_eq_some_iff.mp hx
  have hi' : i < ys.length := by rwa [←h.length_eq]
  exact ⟨ys[i],List.getElem?_eq_getElem hi',h.get hi hi'⟩

/-- A head among tokens is the name of a non-terminal. -/
theorem mem_nonTerminalNames_of_heads {tokens : List Token} {x : String}
    (h : x ∈ (heads tokens).map (·.lexeme)) : x ∈ nonTerminalNames tokens := by
  obtain ⟨t,ht,rfl⟩ := List.mem_map.mp h
  obtain ⟨front,back,rfl,hk,_⟩ := mem_headsBehind.mp ht
  exact ⟨t,List.mem_append_right front List.mem_cons_self,hk,rfl⟩

/-- A use among tokens is the name of a non-terminal. -/
theorem mem_nonTerminalNames_of_uses {tokens : List Token} {x : String}
    (h : x ∈ usesBehind .semicolon (tokens.map Token.word)) : x ∈ nonTerminalNames tokens := by
  obtain ⟨front,t,back,rfl,hk,hx,_⟩ := mem_usesBehind.mp h
  exact ⟨t,List.mem_append_right front List.mem_cons_self,hk,hx⟩

section Lists

variable {f : String → String} {tokens others : List Token}

/-- Renamed tokens have the kinds that they had. -/
theorem kinds_renamed (h : List.Forall₂ (Token.Renamed f) tokens others) :
    others.map (·.kind) = tokens.map (·.kind) := by
  induction h with
  | nil => rfl
  | cons ht _ ih => rw [List.map_cons,List.map_cons,ht.kind,ih]

/-- Renamed tokens are as many of each kind as before. -/
theorem countP_renamed (h : List.Forall₂ (Token.Renamed f) tokens others) (kind : Token.Kind) :
    others.countP (·.kind = kind) = tokens.countP (·.kind = kind) := by
  have hcount (tokens : List Token) : tokens.countP (·.kind = kind) =
      (tokens.map (·.kind)).countP (· = kind) := by
    rw [List.countP_map]
    rfl
  rw [hcount,hcount,kinds_renamed h]

/-- The heads behind a kind have the new names of those heads. -/
theorem headsBehind_renamed (h : List.Forall₂ (Token.Renamed f) tokens others)
    (previous : Token.Kind) : (headsBehind previous others).map (·.lexeme) =
      ((headsBehind previous tokens).map (·.lexeme)).map f := by
  induction h generalizing previous with
  | nil => rfl
  | cons ht _ ih =>
    rw [headsBehind,headsBehind,ht.kind]
    split
    · next hp => simp only [List.map_cons,ih,ht.lexeme hp.2]
    · exact ih _

/-- The heads among renamed tokens have the new names of the heads. -/
theorem heads_renamed (h : List.Forall₂ (Token.Renamed f) tokens others) :
    (heads others).map (·.lexeme) = ((heads tokens).map (·.lexeme)).map f :=
  headsBehind_renamed h .semicolon

/-- The uses in renamed tokens have the new names of the uses. -/
theorem usesBehind_renamed (h : List.Forall₂ (Token.Renamed f) tokens others)
    (previous : Token.Kind) : usesBehind previous (others.map Token.word) =
      (usesBehind previous (tokens.map Token.word)).map f := by
  induction h generalizing previous with
  | nil => rfl
  | @cons t u _ _ ht _ ih =>
    have hkind : u.word.kind = t.word.kind := ht.kind
    rw [List.map_cons,List.map_cons,usesBehind,usesBehind,hkind]
    split
    · next hp =>
      have hlexeme : u.word.lexeme = f t.word.lexeme := ht.lexeme hp.2
      rw [hlexeme,ih,List.map_cons]
    · exact ih _

/-- A head is renamed to the head at the same place. -/
theorem exists_headAt_renamed (h : List.Forall₂ (Token.Renamed f) tokens others) {i : Nat}
    {t : Token} (ht : HeadAt tokens i t) : ∃ u, HeadAt others i u ∧ t.Renamed f u := by
  obtain ⟨hplace,hk,hbefore⟩ := ht
  obtain ⟨u,hu,htu⟩ := exists_getElem?_of_forall₂ h hplace
  refine ⟨u,⟨hu,htu.kind.trans hk,hbefore.imp_right ?_⟩,htu⟩
  rintro ⟨v,hv,hs⟩
  obtain ⟨w,hw,hvw⟩ := exists_getElem?_of_forall₂ h hv
  exact ⟨w,hw,hvw.kind.trans hs⟩

/-- Heads keep different names. -/
theorem Renames.nodup_heads (h : Renames f tokens others)
    (hn : ((heads tokens).map (·.lexeme)).Nodup) : ((heads others).map (·.lexeme)).Nodup := by
  rw [heads_renamed h.tokens,List.nodup_map_iff_inj_on hn]
  intro x hx y hy
  exact h.injOn (mem_nonTerminalNames_of_heads hx) (mem_nonTerminalNames_of_heads hy)

end Lists

end GrammarCensus
