import GrammarCensus.Registry

/-!
# Histories of a registry

A registry that has been built from nothing by definitions and notes of uses, in any
order and with any repetitions. The main statements are that just those names have a
definition that some operation defined, and just those are used that some operation
noted. A refused definition leaves no trace, so only the first one of a name counts.
-/

namespace GrammarCensus

namespace Registry

/-- One operation on a registry. -/
inductive Operation
  /-- A name is to be defined at a position. -/
  | define (name : String) (position : Position)
  /-- The use of a name is noted. -/
  | noteUse (name : String)
deriving Repr, DecidableEq, Inhabited

/-- The registry after one operation. A refused definition leaves it as it was. -/
def perform (r : Registry) : Operation → Registry
  | .define name position =>
    match r.define name position with
    | .error _ => r
    | .ok r' => r'
  | .noteUse name => r.noteUse name

/-- The registry after some operations, beginning with the empty one. -/
def ofHistory (history : List Operation) : Registry :=
  history.foldl perform empty

/-- After an attempt to define a name the defined names are those before and that one. -/
theorem hasDefinition_perform_define (r : Registry) (name : String) (position : Position)
    (other : String) : (r.perform (.define name position)).hasDefinition other = true ↔
      r.hasDefinition other = true ∨ other = name := by
  cases hn : r.position? name with
  | some first =>
    have hdefined : r.hasDefinition name = true := by
      rw [hasDefinition,hn]
      rfl
    rw [perform,define_of_some hn]
    exact ⟨Or.inl,fun h => h.elim id fun h => h ▸ hdefined⟩
  | none =>
    obtain ⟨r',hr',_⟩ := define_of_none hn position
    have hother := position?_of_define hr' other
    rw [perform,hr']
    simp only [hasDefinition,hother]
    split
    · next heq => simp [heq]
    · next hne => simp [hne]

/-- What one operation adds to the defined names. -/
theorem hasDefinition_perform (r : Registry) (operation : Operation) (name : String) :
    (r.perform operation).hasDefinition name = true ↔
      r.hasDefinition name = true ∨ ∃ position, operation = .define name position := by
  cases operation with
  | define other position =>
    rw [hasDefinition_perform_define]
    refine or_congr_right ⟨?_,?_⟩
    · rintro rfl
      exact ⟨position,rfl⟩
    · rintro ⟨_,h⟩
      exact (Operation.define.inj h).1.symm
  | noteUse other => simp [perform,hasDefinition]

/-- What one operation adds to the used names. -/
theorem mem_used_perform (r : Registry) (operation : Operation) (name : String) :
    name ∈ (r.perform operation).used ↔ name ∈ r.used ∨ operation = .noteUse name := by
  cases operation with
  | define other position =>
    have hused : (r.perform (.define other position)).used = r.used := by
      rw [perform]
      split
      · rfl
      · next hr' => exact used_of_define hr'
    simp [hused]
  | noteUse other => simp [perform,noteUse,or_comm,eq_comm]

/-- What some operations add to the defined names. -/
theorem hasDefinition_foldl_perform (r : Registry) (history : List Operation) (name : String) :
    (history.foldl perform r).hasDefinition name = true ↔
      r.hasDefinition name = true ∨ ∃ position, .define name position ∈ history := by
  induction history generalizing r with
  | nil => simp
  | cons operation history ih =>
    rw [List.foldl_cons,ih,hasDefinition_perform]
    simp only [List.mem_cons,exists_or,or_assoc,eq_comm]

/-- What some operations add to the used names. -/
theorem mem_used_foldl_perform (r : Registry) (history : List Operation) (name : String) :
    name ∈ (history.foldl perform r).used ↔ name ∈ r.used ∨ .noteUse name ∈ history := by
  induction history generalizing r with
  | nil => simp
  | cons operation history ih =>
    rw [List.foldl_cons,ih,mem_used_perform]
    simp only [List.mem_cons,or_assoc,eq_comm]

/-- The defined names are those that some operation has defined. -/
theorem hasDefinition_ofHistory (history : List Operation) (name : String) :
    (ofHistory history).hasDefinition name = true ↔
      ∃ position, .define name position ∈ history := by
  have hempty : empty.hasDefinition name = false := rfl
  rw [ofHistory,hasDefinition_foldl_perform,hempty]
  simp

/-- The used names are those whose use some operation has noted. -/
theorem mem_used_ofHistory (history : List Operation) (name : String) :
    name ∈ (ofHistory history).used ↔ .noteUse name ∈ history := by
  have hempty : name ∉ empty.used := NameSet.not_mem_empty name
  rw [ofHistory,mem_used_foldl_perform]
  simp [hempty]

end Registry

end GrammarCensus
