import GrammarCensus.Proofs.ClosureChecks

/-!
# First definitions in a history

What a registry that has been built from nothing answers, in terms of the operations
alone. The position of a name is that of the first operation that defines it, however
many refused ones come later, and the uses play no part in it. The main statement gives
every answer in this way, and from it that two operations may change places wherever
they do not define the same name.
-/

namespace GrammarCensus

/-- No name of a set is listed twice. -/
theorem NameSet.nodup (s : NameSet) : s.names.Nodup := by
  refine s.sorted.imp ?_
  rintro x _ hlt rfl
  exact String.lt_irrefl x hlt

namespace Registry

/-- The name that an operation defines, if it does. -/
def Operation.definedName? : Operation → Option String
  | .define name _ => some name
  | .noteUse _ => none

/-- The position at which an operation defines a name, if it does. -/
def Operation.positionOf? (name : String) : Operation → Option Position
  | .define other position => if other = name then some position else none
  | .noteUse _ => none

/-- An operation has a position for a name just where it defines the name there. -/
theorem Operation.positionOf?_eq_some {operation : Operation} {name : String}
    {position : Position} :
    operation.positionOf? name = some position ↔ operation = .define name position := by
  cases operation with
  | define other place => simp [positionOf?]
  | noteUse other => simp [positionOf?]

/-- An operation that does not define a name has no position for it. -/
theorem Operation.positionOf?_of_ne {operation : Operation} {name : String}
    (h : operation.definedName? ≠ some name) : operation.positionOf? name = none := by
  cases operation with
  | define other place => exact if_neg fun heq => h (congrArg some heq)
  | noteUse other => rfl

/-- The first operation of a history that defines a name defines it at a position. -/
def FirstDefines (history : List Operation) (name : String) (position : Position) : Prop :=
  ∃ earlier later, history = earlier++.define name position::later ∧
    ∀ other, .define name other ∉ earlier

/-- What an operation answers: a refused definition gives the position of the first one. -/
def answer (r : Registry) : Operation → Except Position Unit
  | .define name position => (r.define name position).map fun _ => ()
  | .noteUse _ => .ok ()

variable {r : Registry} {name : String} {position : Position}

/-- A definition is answered by the position of the name, if it has one. -/
theorem answer_define (r : Registry) (name : String) (position : Position) :
    r.answer (.define name position) =
      match r.position? name with
      | none => .ok ()
      | some first => .error first := by
  cases hn : r.position? name with
  | none =>
    obtain ⟨r',hr',_⟩ := define_of_none hn position
    rw [answer,hr']
    rfl
  | some first =>
    rw [answer,define_of_some hn]
    rfl

/-- A refused definition leaves the registry as it was. -/
theorem perform_define_of_some {first : Position} (h : r.position? name = some first)
    (position : Position) : r.perform (.define name position) = r := by
  rw [perform,define_of_some h]

/-- One operation keeps every position, and adds the one that it has itself. -/
theorem position?_perform (r : Registry) (operation : Operation) (name : String) :
    (r.perform operation).position? name =
      (r.position? name).or (operation.positionOf? name) := by
  cases operation with
  | define other position =>
    rw [Operation.positionOf?]
    cases hn : r.position? other with
    | some first =>
      rw [perform_define_of_some hn]
      split
      · next heq => rw [←heq,hn,Option.some_or]
      · exact Option.or_none.symm
    | none =>
      obtain ⟨r',hr',_⟩ := define_of_none hn position
      rw [perform,hr']
      dsimp only
      rw [position?_of_define hr' name]
      by_cases heq : other = name
      · rw [if_pos heq.symm,if_pos heq,←heq,hn,Option.none_or]
      · rw [if_neg (Ne.symm heq),if_neg heq,Option.or_none]
  | noteUse other => exact Option.or_none.symm

/-- After some operations a name has the position that it had before, or else the first one
that an operation has for it. -/
theorem position?_foldl_perform (r : Registry) (history : List Operation) (name : String) :
    (history.foldl perform r).position? name =
      (r.position? name).or (history.findSome? (·.positionOf? name)) := by
  induction history generalizing r with
  | nil => exact Option.or_none.symm
  | cons operation history ih =>
    rw [List.foldl_cons,ih,position?_perform,Option.or_assoc,List.findSome?_cons]
    cases operation.positionOf? name with
    | none => rw [Option.none_or]
    | some position => rw [Option.some_or]

/-- The position of a name is that of its first definition. -/
theorem position?_ofHistory (history : List Operation) (name : String) (position : Position) :
    (ofHistory history).position? name = some position ↔ FirstDefines history name position := by
  have hempty : empty.position? name = none := rfl
  have hnone (operation : Operation) : operation.positionOf? name = none ↔
      ∀ other, operation ≠ .define name other := by
    simp only [Option.eq_none_iff_forall_ne_some,ne_eq,Operation.positionOf?_eq_some]
  rw [ofHistory,position?_foldl_perform,hempty,Option.none_or,List.findSome?_eq_some_iff]
  constructor
  · rintro ⟨earlier,operation,later,rfl,hposition,hearlier⟩
    obtain rfl := Operation.positionOf?_eq_some.mp hposition
    exact ⟨earlier,later,rfl,fun other hother => (hnone _).mp (hearlier _ hother) other rfl⟩
  · rintro ⟨earlier,later,rfl,hearlier⟩
    refine ⟨earlier,_,later,rfl,Operation.positionOf?_eq_some.mpr rfl,fun operation hmem => ?_⟩
    refine (hnone operation).mpr fun other hother => hearlier other ?_
    rwa [hother] at hmem

/-- A name has a position just where some operation defines it. -/
theorem position?_ofHistory_eq_none (history : List Operation) (name : String) :
    (ofHistory history).position? name = none ↔ ∀ other, .define name other ∉ history := by
  have hdefined := hasDefinition_ofHistory history name
  rw [hasDefinition,Option.isSome_iff_ne_none] at hdefined
  rw [←not_iff_not,←ne_eq,hdefined,not_forall]
  simp only [Decidable.not_not]

/-- There are as many definitions as names that operations define. -/
theorem size_ofHistory (history : List Operation) : (ofHistory history).size =
    (history.filterMap Operation.definedName?).toFinset.card := by
  have hnames : (ofHistory history).definedNames =
      (history.filterMap Operation.definedName?).toFinset := by
    ext name
    rw [mem_definedNames,hasDefinition_ofHistory,List.mem_toFinset,List.mem_filterMap]
    constructor
    · rintro ⟨position,hmem⟩
      exact ⟨_,hmem,rfl⟩
    · rintro ⟨operation,hmem,hname⟩
      cases operation with
      | define other position =>
        obtain rfl := Option.some.inj hname
        exact ⟨position,hmem⟩
      | noteUse other => cases hname
  rw [←card_definedNames,hnames]

/-- Two registries that nothing tells apart: whatever is asked, and whatever is to be done
next, both answer alike. -/
structure Agrees (r r' : Registry) : Prop where
  /-- Every name has the same position. -/
  position? : ∀ name, r.position? name = r'.position? name
  /-- The same names have a definition. -/
  hasDefinition : ∀ name, r.hasDefinition name = r'.hasDefinition name
  /-- The same names have a use. -/
  hasUse : ∀ name, r.hasUse name = r'.hasUse name
  /-- The sets of defined names are the same. -/
  defined : r.defined = r'.defined
  /-- The sets of used names are the same. -/
  used : r.used = r'.used
  /-- There are as many definitions. -/
  size : r.size = r'.size
  /-- Every operation has the same answer. -/
  answer : ∀ operation, r.answer operation = r'.answer operation

/-- Registries with the same positions and the same uses cannot be told apart. -/
theorem Agrees.of_views {r r' : Registry} (hposition : ∀ name, r.position? name = r'.position? name)
    (hused : r.used = r'.used) : Agrees r r' := by
  have hdefinition (name : String) : r.hasDefinition name = r'.hasDefinition name := by
    rw [Registry.hasDefinition,hposition,Registry.hasDefinition]
  have hdefined : r.defined = r'.defined := by
    ext name
    rw [mem_defined,mem_defined,hdefinition]
  constructor
  case position? => exact hposition
  case hasDefinition => exact hdefinition
  case hasUse =>
    intro name
    rw [Registry.hasUse,hused,Registry.hasUse]
  case defined => exact hdefined
  case used => exact hused
  case size => rw [←card_definedNames,definedNames,hdefined,←definedNames,card_definedNames]
  case answer =>
    intro operation
    cases operation with
    | define name position => rw [answer_define,answer_define,hposition]
    | noteUse name => rfl

/-- Two operations do not define the same name. -/
def Operation.Apart (first second : Operation) : Prop :=
  ∀ name, first.definedName? = some name → second.definedName? ≠ some name

/-- It does not matter which of the two comes first. -/
theorem Operation.Apart.symm {first second : Operation} (h : first.Apart second) :
    second.Apart first :=
  fun name hsecond hfirst => h name hfirst hsecond

/-- Operations that do not define the same name have not both a position for one. -/
theorem Operation.Apart.positionOf?_or {first second : Operation} (h : first.Apart second)
    (name : String) : (first.positionOf? name).or (second.positionOf? name) =
      (second.positionOf? name).or (first.positionOf? name) := by
  by_cases hname : first.definedName? = some name
  · rw [positionOf?_of_ne (h name hname),Option.or_none,Option.none_or]
  · rw [positionOf?_of_ne hname,Option.or_none,Option.none_or]

/-- Neither of two operations that do not define the same name has a say in the answer of
the other. -/
theorem Operation.Apart.answer_perform {first second : Operation} (h : first.Apart second)
    (r : Registry) : (r.perform first).answer second = r.answer second := by
  cases second with
  | define name position =>
    have hname : first.definedName? ≠ some name := fun heq => h name heq rfl
    rw [answer_define,answer_define,position?_perform,positionOf?_of_ne hname,Option.or_none]
  | noteUse name => rfl

/-- Operations that do not define the same name may change places in a history. -/
theorem agrees_of_apart {first second : Operation} (h : first.Apart second)
    (history later : List Operation) :
    Agrees (ofHistory (history++first::second::later))
      (ofHistory (history++second::first::later)) := by
  refine .of_views (fun name => ?_) ?_
  · have hswap (place : Option Position) :
        (place.or (first.positionOf? name)).or (second.positionOf? name) =
          (place.or (second.positionOf? name)).or (first.positionOf? name) := by
      rw [Option.or_assoc,h.positionOf?_or,Option.or_assoc]
    simp only [ofHistory,List.foldl_append,List.foldl_cons,position?_foldl_perform _ later,
      position?_perform]
    rw [hswap]
  · ext name
    rw [mem_used_ofHistory,mem_used_ofHistory]
    exact ((List.Perm.swap second first later).append_left history).mem_iff

/-- A registry answers every question about its history as the history itself does. -/
structure Records (r : Registry) (history : List Operation) : Prop where
  /-- A definition is accepted just where no operation has defined the name. -/
  accepted : ∀ name position,
    r.answer (.define name position) = .ok () ↔ ∀ other, .define name other ∉ history
  /-- A refused definition is answered by the position of the first one. -/
  refused : ∀ name position first,
    r.answer (.define name position) = .error first ↔ FirstDefines history name first
  /-- A refused definition changes nothing. -/
  unchanged : ∀ name position other, .define name other ∈ history →
    r.perform (.define name position) = r
  /-- The position of a name is that of its first definition. -/
  position? : ∀ name position, r.position? name = some position ↔ FirstDefines history name position
  /-- The names with a definition are those with a position. -/
  hasDefinition : ∀ name, r.hasDefinition name = true ↔ ∃ position, r.position? name = some position
  /-- The names with a use are those whose use has been noted. -/
  hasUse : ∀ name, r.hasUse name = true ↔ .noteUse name ∈ history
  /-- Each name that some operation has defined is listed once, and no other one. -/
  defined : r.defined.names.Nodup ∧
    ∀ name, name ∈ r.defined.names ↔ ∃ position, .define name position ∈ history
  /-- Each name whose use has been noted is listed once, and no other one. -/
  used : r.used.names.Nodup ∧ ∀ name, name ∈ r.used.names ↔ .noteUse name ∈ history
  /-- There are as many definitions as different names that operations have defined. -/
  size : r.size = (history.filterMap Operation.definedName?).toFinset.card

/-- Whatever operations a registry has seen, it records them: the first definition of a name
counts and is never replaced, and definitions and uses do not meddle with each other. So
operations that do not define the same name may change places: each of them is answered as
if the other had not been there, and what comes later cannot tell their order. -/
theorem records_ofHistory (history : List Operation) :
    (ofHistory history).Records history ∧
    ∀ first second : Operation, first.Apart second →
      ((ofHistory history).perform first).answer second = (ofHistory history).answer second ∧
      ((ofHistory history).perform second).answer first = (ofHistory history).answer first ∧
      ∀ later, Agrees (ofHistory (history++first::second::later))
        (ofHistory (history++second::first::later)) := by
  constructor
  · constructor
    case accepted =>
      intro name position
      rw [answer_define,←position?_ofHistory_eq_none]
      cases (ofHistory history).position? name <;> simp
    case refused =>
      intro name position first
      rw [answer_define,←position?_ofHistory]
      cases (ofHistory history).position? name <;> simp
    case unchanged =>
      intro name position other hmem
      have hdefined := (hasDefinition_ofHistory history name).mpr ⟨other,hmem⟩
      obtain ⟨first,hfirst⟩ := Option.isSome_iff_exists.mp hdefined
      exact perform_define_of_some hfirst position
    case position? => exact position?_ofHistory history
    case hasDefinition => exact fun name => Option.isSome_iff_exists
    case hasUse =>
      intro name
      rw [←mem_used_ofHistory,hasUse,decide_eq_true_iff]
    case defined =>
      refine ⟨NameSet.nodup _,fun name => ?_⟩
      rw [←hasDefinition_ofHistory,←mem_defined]
      rfl
    case used => exact ⟨NameSet.nodup _,mem_used_ofHistory history⟩
    case size => exact size_ofHistory history
  · intro first second h
    exact ⟨h.answer_perform _,h.symm.answer_perform _,agrees_of_apart h history⟩

/-- A name that is defined, used, and refused a second time: the use of another name may come
before or after that, and a third attempt has the same answer in both registries. -/
theorem records_ofHistory_refusedTwice :
    let history := [.define "s" ⟨1,1⟩,.noteUse "s"]
    (ofHistory history).answer (.define "s" ⟨2,1⟩) = .error ⟨1,1⟩ ∧
      (ofHistory (history++[.define "s" ⟨2,1⟩,.noteUse "t"])).answer (.define "s" ⟨3,1⟩) =
        (ofHistory (history++[.noteUse "t",.define "s" ⟨2,1⟩])).answer (.define "s" ⟨3,1⟩) := by
  intro history
  obtain ⟨hrecords,happart⟩ := records_ofHistory history
  have hfirst : FirstDefines history "s" ⟨1,1⟩ :=
    ⟨[],[.noteUse "s"],rfl,fun _ => List.not_mem_nil⟩
  obtain ⟨_,_,hagrees⟩ := happart (.define "s" ⟨2,1⟩) (.noteUse "t") (fun _ _ h => by cases h)
  exact ⟨(hrecords.refused _ _ _).mpr hfirst,(hagrees []).answer _⟩

end Registry

end GrammarCensus
