import GrammarCensus.NameSet
import GrammarCensus.Text.Position

/-!
# The registry of non-terminals

What is known of the non-terminals of a specification: where each one was first
defined, and which ones are used. A second definition of a name is refused and
changes nothing. The main statements say what each operation does to the two
views, the definition of a name and the use of a name.
-/

namespace GrammarCensus

/-- A name and the place of its rule-set. -/
structure Definition where
  /-- The defined name. -/
  name : String
  /-- The position at which the rule-set begins. -/
  position : Position
deriving Repr, DecidableEq, Inhabited

/-- The definitions and uses of non-terminals. -/
structure Registry where
  /-- The definitions in the order in which they were made. -/
  definitions : List Definition
  /-- The names that are used. -/
  used : NameSet
  /-- No name is defined twice. -/
  nodup : (definitions.map (·.name)).Nodup
deriving DecidableEq

namespace Registry

/-- The registry that knows of no name. -/
def empty : Registry :=
  ⟨[],.empty,List.nodup_nil⟩

/-- The empty registry stands for one that is not given. -/
instance : Inhabited Registry := ⟨empty⟩

/-- Where a name was first defined. -/
def position? (r : Registry) (name : String) : Option Position :=
  (r.definitions.find? (·.name==name)).map (·.position)

/-- Whether a name has a definition. -/
def hasDefinition (r : Registry) (name : String) : Bool :=
  (r.position? name).isSome

/-- Whether a name is used. -/
def hasUse (r : Registry) (name : String) : Bool :=
  decide (name ∈ r.used)

/-- A name without a definition is not among the defined ones. -/
theorem position?_eq_none {r : Registry} {name : String} :
    r.position? name = none ↔ name ∉ r.definitions.map (·.name) := by
  simp only [position?,Option.map_eq_none_iff,List.find?_eq_none,beq_iff_eq,
    List.mem_map,not_exists,not_and]

/-- Defines a name. Where it has a definition already, that one's position is
the answer and nothing changes. -/
def define (r : Registry) (name : String) (position : Position) :
    Except Position Registry :=
  match h : r.position? name with
  | some first => .error first
  | none => .ok {
      definitions := r.definitions++[⟨name,position⟩]
      used := r.used
      nodup := by
        rw [List.map_append,List.nodup_append]
        refine ⟨r.nodup,List.nodup_cons.mpr ⟨List.not_mem_nil,List.nodup_nil⟩,?_⟩
        intro x hx y hy heq
        obtain rfl : y = name := by simpa using hy
        exact position?_eq_none.mp h (heq ▸ hx) }

/-- A defined name cannot be defined again. -/
theorem define_of_some {r : Registry} {name : String} {first : Position}
    (h : r.position? name = some first) (position : Position) :
    r.define name position = .error first := by
  rw [define]
  split <;> simp_all

/-- Every other name can be defined, and its definition comes last. -/
theorem define_of_none {r : Registry} {name : String}
    (h : r.position? name = none) (position : Position) :
    ∃ r', r.define name position = .ok r' ∧
      r'.definitions = r.definitions++[⟨name,position⟩] ∧ r'.used = r.used := by
  rw [define]
  split
  · simp_all
  · exact ⟨_,rfl,rfl,rfl⟩

/-- After a definition the defined name has its position, and every other name is
as before. -/
theorem position?_of_define {r r' : Registry} {name : String} {position : Position}
    (h : r.define name position = .ok r') (other : String) :
    r'.position? other = if other = name then some position else r.position? other := by
  cases hn : r.position? name with
  | some first => rw [define_of_some hn] at h; cases h
  | none =>
    obtain ⟨r1,h1,hd,_⟩ := define_of_none hn position
    obtain rfl : r1 = r' := by rw [h1] at h; exact Except.ok.inj h
    by_cases ho : other = name
    · subst ho
      simp only [position?,Option.map_eq_none_iff] at hn
      simp [position?,hd,List.find?_append,hn]
    · have hb : (name==other) = false := beq_eq_false_iff_ne.mpr fun e => ho e.symm
      simp [position?,hd,List.find?_append,hb,ho]

/-- A definition changes no use. -/
theorem used_of_define {r r' : Registry} {name : String} {position : Position}
    (h : r.define name position = .ok r') : r'.used = r.used := by
  cases hn : r.position? name with
  | some first => rw [define_of_some hn] at h; cases h
  | none =>
    obtain ⟨r1,h1,_,hu⟩ := define_of_none hn position
    obtain rfl : r1 = r' := by rw [h1] at h; exact Except.ok.inj h
    exact hu

/-- Notes that a name is used. -/
def noteUse (r : Registry) (name : String) : Registry :=
  ⟨r.definitions,r.used.insert name,r.nodup⟩

/-- Noting a use changes no definition. -/
@[simp] theorem position?_noteUse (r : Registry) (name other : String) :
    (r.noteUse name).position? other = r.position? other := rfl

/-- After noting a use the used names are those before and the noted one. -/
@[simp] theorem hasUse_noteUse (r : Registry) (name other : String) :
    (r.noteUse name).hasUse other = (decide (other = name) || r.hasUse other) := by
  simp [hasUse,noteUse]

/-- The names that have a definition. -/
def defined (r : Registry) : NameSet :=
  .ofList (r.definitions.map (·.name))

/-- A name is among the defined ones when it has a definition. -/
theorem mem_defined {r : Registry} {name : String} :
    name ∈ r.defined ↔ r.hasDefinition name = true := by
  rw [defined,NameSet.mem_ofList,hasDefinition,Option.isSome_iff_ne_none,ne_eq,
    position?_eq_none,Decidable.not_not]

/-- The number of names that have a definition. -/
def size (r : Registry) : Nat :=
  r.definitions.length

/-- The definitions in increasing order of their names. -/
def listing (r : Registry) : List Definition :=
  r.defined.names.filterMap fun name => (r.position? name).map (⟨name,·⟩)

end Registry

end GrammarCensus
