import Mathlib.Data.Finset.Card
import GrammarCensus.Census
import GrammarCensus.Proofs.Histories

/-!
# The check for closure

What the check for closure says of a registry, by its two sets of names. The main
statement is that the set of the defined names and the set of the used ones decide the
outcome: neither the operations that built the registry, nor their order, nor the order
in which its names are gone through have any influence.
-/

namespace GrammarCensus

namespace NameSet

/-- The members of a set of names. -/
def toFinset (s : NameSet) : Finset String :=
  s.names.toFinset

/-- The members are the names. -/
@[simp] theorem mem_toFinset {s : NameSet} {z : String} : z ∈ s.toFinset ↔ z ∈ s :=
  List.mem_toFinset

/-- A set of names is given by its members. -/
@[simp] theorem toFinset_inj {s t : NameSet} : s.toFinset = t.toFinset ↔ s = t := by
  refine ⟨fun h => ?_,fun h => by rw [h]⟩
  ext z
  rw [←mem_toFinset,h,mem_toFinset]

/-- Only the empty set has no members. -/
theorem toFinset_eq_empty {s : NameSet} : s.toFinset = ∅ ↔ s = empty := by
  have hempty : empty.toFinset = ∅ := rfl
  rw [←hempty,toFinset_inj]

/-- Lists with the same members have the same set. -/
theorem ofList_congr {names others : List String} (h : ∀ z, z ∈ names ↔ z ∈ others) :
    ofList names = ofList others := by
  ext z
  rw [mem_ofList,mem_ofList,h]

end NameSet

namespace Registry

/-- The names that have a definition. -/
def definedNames (r : Registry) : Finset String :=
  r.defined.toFinset

/-- The names that are used. -/
def usedNames (r : Registry) : Finset String :=
  r.used.toFinset

/-- A name is among the defined ones when it has a definition. -/
theorem mem_definedNames {r : Registry} {name : String} :
    name ∈ r.definedNames ↔ r.hasDefinition name = true := by
  rw [definedNames,NameSet.mem_toFinset,mem_defined]

/-- A name is among the used ones when it has a use. -/
theorem mem_usedNames {r : Registry} {name : String} :
    name ∈ r.usedNames ↔ r.hasUse name = true := by
  rw [usedNames,NameSet.mem_toFinset,hasUse,decide_eq_true_iff]

/-- There are as many definitions as defined names. -/
theorem card_definedNames (r : Registry) : r.definedNames.card = r.size := by
  have hnames : r.definedNames = (r.definitions.map (·.name)).toFinset := by
    ext name
    rw [definedNames,NameSet.mem_toFinset,defined,NameSet.mem_ofList,List.mem_toFinset]
  rw [hnames,List.toFinset_card_of_nodup r.nodup,List.length_map,size]

/-- The undefined names are the used ones without the defined ones. -/
theorem toFinset_undefinedNames (r : Registry) :
    r.undefinedNames.toFinset = r.usedNames \ r.definedNames := by
  ext name
  rw [NameSet.mem_toFinset,mem_undefinedNames,Finset.mem_sdiff,mem_definedNames,Bool.not_eq_true,
    usedNames,NameSet.mem_toFinset]

/-- The unused names are the defined ones without the used ones. -/
theorem toFinset_unusedNames (r : Registry) :
    r.unusedNames.toFinset = r.definedNames \ r.usedNames := by
  ext name
  rw [NameSet.mem_toFinset,mem_unusedNames,Finset.mem_sdiff,mem_usedNames,Bool.not_eq_true,
    definedNames,NameSet.mem_toFinset]

end Registry

namespace Survey

/-- The census of a surveyed grammar, where the used names and the defined ones are gone
through in given orders. -/
def censusAlong (s : Survey) (used defined : List String) : Except ClosureError Census :=
  let undefined := NameSet.ofList (used.filter fun name => !s.registry.hasDefinition name)
  let unused := NameSet.ofList (defined.filter fun name => !s.registry.hasUse name)
  if s.registry.size = 0 then .error .noRuleSets
  else if undefined.isEmpty = false then .error (.undefined undefined)
  else if unused.isEmpty = false then .error (.unused unused)
  else .ok ⟨s.registry.size,s.nonTerminals,s.terminals⟩

/-- The order in which the names are gone through has no influence. -/
theorem censusAlong_eq (s : Survey) {used defined : List String}
    (hused : used.toFinset = s.registry.usedNames)
    (hdefined : defined.toFinset = s.registry.definedNames) :
    s.censusAlong used defined = s.census := by
  have hundefined : NameSet.ofList (used.filter fun name => !s.registry.hasDefinition name) =
      s.registry.undefinedNames := by
    refine NameSet.ofList_congr fun name => ?_
    have hmem : name ∈ used ↔ name ∈ s.registry.used := by
      rw [←List.mem_toFinset,hused,Registry.usedNames,NameSet.mem_toFinset]
    rw [List.mem_filter,List.mem_filter,hmem]
    rfl
  have hunused : NameSet.ofList (defined.filter fun name => !s.registry.hasUse name) =
      s.registry.unusedNames := by
    refine NameSet.ofList_congr fun name => ?_
    have hmem : name ∈ defined ↔ name ∈ s.registry.defined := by
      rw [←List.mem_toFinset,hdefined,Registry.definedNames,NameSet.mem_toFinset]
    rw [List.mem_filter,List.mem_filter,hmem]
    rfl
  rw [censusAlong,hundefined,hunused,census]

/-- The outcome of the check for closure, by the sets of the defined and the used names. -/
inductive Concludes (defined used : Finset String) (nonTerminals terminals : Nat) :
    Except ClosureError Census → Prop
  /-- No name is defined. -/
  | noRuleSets : defined = ∅ → Concludes defined used nonTerminals terminals (.error .noRuleSets)
  /-- Some used names are not defined. -/
  | undefined {names : NameSet} : defined ≠ ∅ → used \ defined ≠ ∅ →
      names.toFinset = used \ defined →
      Concludes defined used nonTerminals terminals (.error (.undefined names))
  /-- All used names are defined, and some defined ones are not used. -/
  | unused {names : NameSet} : defined ≠ ∅ → used ⊆ defined → defined \ used ≠ ∅ →
      names.toFinset = defined \ used →
      Concludes defined used nonTerminals terminals (.error (.unused names))
  /-- The defined names are the used ones. -/
  | closed : defined ≠ ∅ → used = defined →
      Concludes defined used nonTerminals terminals (.ok ⟨defined.card,nonTerminals,terminals⟩)

/-- The census is the outcome for the names of the registry. -/
theorem concludes_census (s : Survey) : Concludes s.registry.definedNames s.registry.usedNames
    s.nonTerminals s.terminals s.census := by
  have hundefined := s.registry.toFinset_undefinedNames
  have hunused := s.registry.toFinset_unusedNames
  have hcard := s.registry.card_definedNames
  by_cases hsize : s.registry.size = 0
  · rw [census_of_size_eq_zero hsize]
    rw [hsize,Finset.card_eq_zero] at hcard
    exact .noRuleSets hcard
  have hdefined : s.registry.definedNames ≠ ∅ := by
    rwa [ne_eq,←Finset.card_eq_zero,hcard]
  by_cases hu : s.registry.undefinedNames = .empty
  · have hsubset : s.registry.usedNames ⊆ s.registry.definedNames := by
      rwa [←Finset.sdiff_eq_empty_iff_subset,←hundefined,NameSet.toFinset_eq_empty]
    by_cases hn : s.registry.unusedNames = .empty
    · have hsubset' : s.registry.definedNames ⊆ s.registry.usedNames := by
        rwa [←Finset.sdiff_eq_empty_iff_subset,←hunused,NameSet.toFinset_eq_empty]
      rw [census_of_closed hsize hu hn,←hcard]
      exact .closed hdefined (hsubset.antisymm hsubset')
    · rw [census_of_unusedNames_ne hsize hu hn]
      rw [←NameSet.toFinset_eq_empty,hunused] at hn
      exact .unused hdefined hsubset hn hunused
  · rw [census_of_undefinedNames_ne hsize hu]
    rw [←NameSet.toFinset_eq_empty,hundefined] at hu
    exact .undefined hdefined hu hundefined

/-- The census is the same for registries with the same names and for the same counts. -/
theorem census_congr {s s' : Survey}
    (hdefined : s'.registry.definedNames = s.registry.definedNames)
    (hused : s'.registry.usedNames = s.registry.usedNames)
    (hnonTerminals : s'.nonTerminals = s.nonTerminals) (hterminals : s'.terminals = s.terminals) :
    s'.census = s.census := by
  have hsize : s'.registry.size = s.registry.size := by
    rw [←Registry.card_definedNames,hdefined,Registry.card_definedNames]
  have hundefined : s'.registry.undefinedNames = s.registry.undefinedNames := by
    rw [←NameSet.toFinset_inj,Registry.toFinset_undefinedNames,hused,hdefined,
      Registry.toFinset_undefinedNames]
  have hunused : s'.registry.unusedNames = s.registry.unusedNames := by
    rw [←NameSet.toFinset_inj,Registry.toFinset_unusedNames,hused,hdefined,
      Registry.toFinset_unusedNames]
  rw [census,census,hsize,hundefined,hunused,hnonTerminals,hterminals]

/-- What an outcome is, and what it says of the two sets, are the same. -/
theorem Concludes.iffs {defined used : Finset String} {nonTerminals terminals : Nat}
    {outcome : Except ClosureError Census}
    (h : Concludes defined used nonTerminals terminals outcome) :
    (outcome = .error .noRuleSets ↔ defined = ∅) ∧
    (∀ names, outcome = .error (.undefined names) ↔
      defined ≠ ∅ ∧ used \ defined ≠ ∅ ∧ names.toFinset = used \ defined) ∧
    (∀ names, outcome = .error (.unused names) ↔ defined ≠ ∅ ∧ used ⊆ defined ∧
      defined \ used ≠ ∅ ∧ names.toFinset = defined \ used) ∧
    ∀ c, outcome = .ok c ↔
      defined ≠ ∅ ∧ used = defined ∧ c = ⟨defined.card,nonTerminals,terminals⟩ := by
  cases h with
  | noRuleSets hd => simp [hd]
  | @undefined names hd hu hnames =>
    have hsubset : ¬used ⊆ defined := by rwa [←Finset.sdiff_eq_empty_iff_subset]
    have hne : used ≠ defined := fun heq => hsubset heq.subset
    have hsame (others : NameSet) : others.toFinset = used \ defined ↔ names = others := by
      rw [←hnames,NameSet.toFinset_inj,eq_comm]
    simp [hd,hsubset,hne,hsame]
  | @unused names hd hsubset hn hnames =>
    have hu : used \ defined = ∅ := Finset.sdiff_eq_empty_iff_subset.mpr hsubset
    have hne : used ≠ defined := by
      rintro rfl
      exact hn (Finset.sdiff_self used)
    have hsame (others : NameSet) : others.toFinset = defined \ used ↔ names = others := by
      rw [←hnames,NameSet.toFinset_inj,eq_comm]
    simp [hd,hu,hsubset,hn,hne,hsame]
  | closed hd heq => simp [hd,heq,eq_comm]

variable {s : Survey} {names : NameSet} {c : Census}

/-- The undefined names are reported where there are any. -/
theorem census_eq_undefined_iff : s.census = .error (.undefined names) ↔
    s.registry.definedNames ≠ ∅ ∧ s.registry.usedNames \ s.registry.definedNames ≠ ∅ ∧
      names.toFinset = s.registry.usedNames \ s.registry.definedNames :=
  s.concludes_census.iffs.2.1 names

/-- The unused names are reported where there are any, and no undefined ones. -/
theorem census_eq_unused_iff : s.census = .error (.unused names) ↔
    s.registry.definedNames ≠ ∅ ∧ s.registry.usedNames ⊆ s.registry.definedNames ∧
      s.registry.definedNames \ s.registry.usedNames ≠ ∅ ∧
      names.toFinset = s.registry.definedNames \ s.registry.usedNames :=
  s.concludes_census.iffs.2.2.1 names

/-- The numbers are the census where just the defined names are used. -/
theorem census_eq_closed_iff : s.census = .ok c ↔ s.registry.definedNames ≠ ∅ ∧
    s.registry.usedNames = s.registry.definedNames ∧
      c = ⟨s.registry.definedNames.card,s.nonTerminals,s.terminals⟩ :=
  s.concludes_census.iffs.2.2.2 c

end Survey

/-- The census of a registry that some operations have built, whatever they were. It has
no rule-sets if no name is defined; otherwise the used names that are not defined are
reported, if there are any, and then the defined names that are not used; otherwise the
numbers are the census. Any other operations with the same defined and the same used
names, and any order in which these names are gone through, give the same outcome and
the same message. -/
theorem census_ofHistory (history : List Registry.Operation) (nonTerminals terminals : Nat) :
    let r := Registry.ofHistory history
    let outcome := (Survey.mk r nonTerminals terminals).census
    (∀ x, x ∈ r.definedNames ↔ ∃ position, .define x position ∈ history) ∧
    (∀ x, x ∈ r.usedNames ↔ .noteUse x ∈ history) ∧
    (outcome = .error .noRuleSets ↔ r.definedNames = ∅) ∧
    (∀ names, outcome = .error (.undefined names) ↔ r.definedNames ≠ ∅ ∧
      r.usedNames \ r.definedNames ≠ ∅ ∧ names.toFinset = r.usedNames \ r.definedNames) ∧
    (∀ names, outcome = .error (.unused names) ↔ r.definedNames ≠ ∅ ∧
      r.usedNames ⊆ r.definedNames ∧ r.definedNames \ r.usedNames ≠ ∅ ∧
      names.toFinset = r.definedNames \ r.usedNames) ∧
    (∀ c, outcome = .ok c ↔ r.definedNames ≠ ∅ ∧ r.usedNames = r.definedNames ∧
      c = ⟨r.definedNames.card,nonTerminals,terminals⟩) ∧
    ∀ others used defined, (Registry.ofHistory others).definedNames = r.definedNames →
      (Registry.ofHistory others).usedNames = r.usedNames →
      used.toFinset = r.usedNames → defined.toFinset = r.definedNames →
      (Survey.mk (.ofHistory others) nonTerminals terminals).censusAlong used defined =
          outcome ∧
        ((Survey.mk (.ofHistory others) nonTerminals terminals).censusAlong used
          defined).mapError (·.message) = outcome.mapError (·.message) := by
  intro r outcome
  have hc : Survey.Concludes r.definedNames r.usedNames nonTerminals terminals outcome :=
    Survey.concludes_census ⟨r,nonTerminals,terminals⟩
  obtain ⟨hnone,hundefined,hunused,hclosed⟩ := hc.iffs
  refine ⟨fun x => ?_,fun x => ?_,hnone,hundefined,hunused,hclosed,?_⟩
  · rw [Registry.mem_definedNames,Registry.hasDefinition_ofHistory]
  · rw [Registry.usedNames,NameSet.mem_toFinset,Registry.mem_used_ofHistory]
  · intro others used defined hdefinedNames husedNames hused hdefined
    have halong : (Survey.mk (.ofHistory others) nonTerminals terminals).censusAlong used
        defined = outcome := by
      rw [Survey.censusAlong_eq _ (hused.trans husedNames.symm)
        (hdefined.trans hdefinedNames.symm)]
      exact Survey.census_congr hdefinedNames husedNames rfl rfl
    exact ⟨halong,by rw [halong]⟩

/-- A name that is defined twice and another that is only used: where the uses come first
and one of them is repeated, and the used names are gone through backwards, the outcome
and its message are the same. -/
theorem census_ofHistory_usesInFront :
    let r := Registry.ofHistory
      [.define "s" ⟨1,1⟩,.define "s" ⟨2,1⟩,.noteUse "s",.noteUse "t"]
    let r' := Registry.ofHistory
      [.noteUse "t",.noteUse "s",.noteUse "t",.define "s" ⟨2,1⟩]
    (Survey.mk r' 3 5).censusAlong ["t","s"] ["s"] = (Survey.mk r 3 5).census ∧
      ((Survey.mk r' 3 5).censusAlong ["t","s"] ["s"]).mapError (·.message) =
        .error "no rules for \x7bt\x7d" := by
  intro r r'
  have h := census_ofHistory [.define "s" ⟨1,1⟩,.define "s" ⟨2,1⟩,.noteUse "s",.noteUse "t"] 3 5
  obtain ⟨_,_,_,_,_,_,horder⟩ := h
  obtain ⟨houtcome,hmessage⟩ := horder
    [.noteUse "t",.noteUse "s",.noteUse "t",.define "s" ⟨2,1⟩] ["t","s"] ["s"] (by decide)
    (by decide) (by decide) (by decide)
  refine ⟨houtcome,hmessage.trans ?_⟩
  decide

end GrammarCensus
