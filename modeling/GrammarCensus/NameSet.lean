/-!
# Sets of names

A set of names is kept as the list of its names in increasing order, each one
once. So two sets with the same members are the same set and are printed alike.
Names compare character by character, by code point.
-/

namespace GrammarCensus

/-- A finite set of names. -/
structure NameSet where
  /-- The members in increasing order. -/
  names : List String
  /-- Every name is before all those that follow it. -/
  sorted : names.Pairwise (· < ·)
deriving DecidableEq

namespace NameSet

/-- Puts a name into an increasing list, at the place where it belongs. A name
that is there already stays there once. -/
def place (x : String) : List String → List String
  | [] => [x]
  | y::names =>
    if x < y then x::y::names
    else if x = y then y::names
    else y::place x names

/-- Placing a name adds that name and nothing else. -/
theorem mem_place {x z : String} {names : List String} :
    z ∈ place x names ↔ z = x ∨ z ∈ names := by
  induction names with
  | nil => simp [place]
  | cons y names ih =>
    simp only [place]
    split
    · simp
    · split
      · next h => subst h; simp
      · simp only [List.mem_cons,ih]
        exact or_left_comm

/-- Of two different names the one that is not smaller is the greater one. -/
theorem lt_of_not_lt {x y : String} (h : ¬x < y) (hne : x ≠ y) : y < x := by
  by_cases hyx : y < x
  · exact hyx
  · exact absurd (String.le_antisymm (String.not_lt.mp hyx) (String.not_lt.mp h)) hne

/-- Placing a name keeps the order. -/
theorem sorted_place (x : String) {names : List String} (h : names.Pairwise (· < ·)) :
    (place x names).Pairwise (· < ·) := by
  induction names with
  | nil => simp [place]
  | cons y names ih =>
    obtain ⟨hy,ht⟩ := List.pairwise_cons.mp h
    simp only [place]
    split
    · next hxy =>
      refine List.pairwise_cons.mpr ⟨?_,h⟩
      intro z hz
      rcases List.mem_cons.mp hz with rfl|hz
      · exact hxy
      · exact String.lt_trans hxy (hy z hz)
    · split
      · exact h
      · next hxy hne =>
        refine List.pairwise_cons.mpr ⟨?_,ih ht⟩
        intro z hz
        rcases mem_place.mp hz with rfl|hz
        · exact lt_of_not_lt hxy hne
        · exact hy z hz

/-- Increasing lists with the same members are equal. -/
theorem eq_of_sorted_of_mem_iff {names others : List String}
    (hn : names.Pairwise (· < ·)) (ho : others.Pairwise (· < ·))
    (h : ∀ z, z ∈ names ↔ z ∈ others) : names = others := by
  induction names generalizing others with
  | nil => exact (List.eq_nil_iff_forall_not_mem.mpr fun z hz => by simpa using (h z).mpr hz).symm
  | cons x names ih =>
    obtain ⟨hx,hns⟩ := List.pairwise_cons.mp hn
    cases others with
    | nil => exact absurd ((h x).mp List.mem_cons_self) List.not_mem_nil
    | cons y others =>
      obtain ⟨hy,hos⟩ := List.pairwise_cons.mp ho
      have hxy : x = y := by
        rcases List.mem_cons.mp ((h x).mp List.mem_cons_self) with he|hlt
        · exact he
        rcases List.mem_cons.mp ((h y).mpr List.mem_cons_self) with he|hgt
        · exact he.symm
        exact absurd (hy x hlt) (String.lt_asymm (hx y hgt))
      subst hxy
      congr 1
      refine ih hns hos fun z => ⟨fun hz => ?_,fun hz => ?_⟩
      · rcases List.mem_cons.mp ((h z).mp (List.mem_cons_of_mem x hz)) with rfl|hz'
        · exact absurd (hx z hz) (String.lt_irrefl z)
        · exact hz'
      · rcases List.mem_cons.mp ((h z).mpr (List.mem_cons_of_mem x hz)) with rfl|hz'
        · exact absurd (hy z hz) (String.lt_irrefl z)
        · exact hz'

/-- The set without members. -/
def empty : NameSet :=
  ⟨[],List.Pairwise.nil⟩

/-- The empty set stands for a set that is not given. -/
instance : Inhabited NameSet := ⟨empty⟩

/-- A name belongs to a set when it is one of its names. -/
instance : Membership String NameSet where
  mem s x := x ∈ s.names

/-- Membership is decided by going through the names. -/
instance (x : String) (s : NameSet) : Decidable (x ∈ s) :=
  inferInstanceAs (Decidable (x ∈ s.names))

/-- Nothing is a member of the empty set. -/
@[simp] theorem not_mem_empty (x : String) : x ∉ empty :=
  List.not_mem_nil

/-- Sets with the same members are the same set. -/
@[ext] theorem ext {s t : NameSet} (h : ∀ z, z ∈ s ↔ z ∈ t) : s = t := by
  obtain ⟨names,hn⟩ := s
  obtain ⟨others,ho⟩ := t
  obtain rfl := eq_of_sorted_of_mem_iff hn ho h
  rfl

/-- The set with one more member. -/
def insert (s : NameSet) (x : String) : NameSet :=
  ⟨place x s.names,sorted_place x s.sorted⟩

/-- The members after an insertion. -/
@[simp] theorem mem_insert {s : NameSet} {x z : String} :
    z ∈ s.insert x ↔ z = x ∨ z ∈ s :=
  mem_place

/-- The set of the members of a list. -/
def ofList (names : List String) : NameSet :=
  names.foldl insert empty

/-- Inserting all names of a list adds just those. -/
theorem mem_foldl_insert {names : List String} {s : NameSet} {z : String} :
    z ∈ names.foldl insert s ↔ z ∈ names ∨ z ∈ s := by
  induction names generalizing s with
  | nil => simp
  | cons x names ih =>
    rw [List.foldl_cons,ih,mem_insert,List.mem_cons]
    constructor
    · rintro (h|h|h)
      · exact Or.inl (Or.inr h)
      · exact Or.inl (Or.inl h)
      · exact Or.inr h
    · rintro ((h|h)|h)
      · exact Or.inr (Or.inl h)
      · exact Or.inl h
      · exact Or.inr (Or.inr h)

/-- The members of the set of a list are those of the list. -/
@[simp] theorem mem_ofList {names : List String} {z : String} :
    z ∈ ofList names ↔ z ∈ names := by
  simp [ofList,mem_foldl_insert]

/-- Whether a set has no members. -/
def isEmpty (s : NameSet) : Bool :=
  s.names.isEmpty

/-- A set has no members when none is found in it. -/
theorem isEmpty_iff {s : NameSet} : s.isEmpty = true ↔ ∀ z, z ∉ s := by
  rw [isEmpty,List.isEmpty_iff,List.eq_nil_iff_forall_not_mem]
  rfl

/-- The set that has no members is the empty one. -/
theorem isEmpty_iff_eq_empty {s : NameSet} : s.isEmpty = true ↔ s = empty := by
  rw [isEmpty_iff]
  constructor
  · intro h
    ext z
    exact iff_of_false (h z) (not_mem_empty z)
  · rintro rfl
    exact not_mem_empty

/-- Texts one after the other, with a comma and a space between them. -/
def listed : List String → String
  | [] => ""
  | [x] => x
  | x::y::names => x++", "++listed (y::names)

/-- The names in increasing order, between braces. -/
def render (s : NameSet) : String :=
  "\x7b"++listed s.names++"\x7d"

end NameSet

end GrammarCensus
