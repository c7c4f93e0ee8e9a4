import GrammarCensus.Proofs.ByteOrder
import GrammarCensus.Proofs.ClosureChecks
import GrammarCensus.Proofs.Dump
import GrammarCensus.Proofs.RenamedCensus

/-!
# Diagnostics that list names

A diagnostic that lists names is made of a label and a set of names. The set does not
depend on the order in which its names were found, and it is written in increasing order.
Arbitrary names could not be told apart in the list, since a name may hold a comma itself;
the names that a diagnostic lists are lexemes of non-terminals, which have none. The main
statement is that such a diagnostic determines what it was made of.
-/

namespace GrammarCensus

open Lexicon

namespace NameSet

variable {names others : List String} {s t : NameSet}

/-- Texts are listed with a comma and a space between them. -/
theorem listed_eq_intercalate (names : List String) : listed names = ", ".intercalate names := by
  induction names with
  | nil => rfl
  | cons x names ih =>
    cases names with
    | nil => rfl
    | cons y names => rw [listed,ih,String.intercalate_cons_cons]

/-- A name that can be told from its neighbours in a list. -/
def Listable (name : String) : Prop :=
  name ≠ "" ∧ ',' ∉ name.toList

/-- The name of a non-terminal can be told from its neighbours. -/
theorem listable_of_isName {name : String} (h : IsName isLower name.toList) : Listable name := by
  obtain ⟨c,rest,hname,hc,hrest⟩ := h
  have hcomma : isNameChar ',' = false := by decide
  constructor
  · rintro rfl
    cases hname
  · intro hmem
    rw [hname] at hmem
    have hchar : isNameChar ',' := by
      rcases List.mem_cons.mp hmem with rfl|hmem
      · exact isNameChar_of_isLower hc
      · exact hrest _ hmem
    rw [hcomma] at hchar
    cases hchar

/-- What stands behind the first name in a list. -/
def listedBehind : List String → List Char
  | [] => []
  | x::names => ',' :: ' ' :: (listed (x::names)).toList

/-- A list is its first name and what stands behind that. -/
theorem toList_listed_cons (x : String) (names : List String) :
    (listed (x::names)).toList = x.toList++listedBehind names := by
  cases names with
  | nil => exact (List.append_nil _).symm
  | cons y names => simp [listed,listedBehind]

/-- The first name of a list ends at the first comma. -/
theorem takeWhile_listed {x : String} (hx : Listable x) (names : List String) :
    (listed (x::names)).toList.takeWhile (· ≠ ',') = x.toList := by
  rw [toList_listed_cons]
  refine takeWhile_of_head (fun c hc => ?_) (fun c hc => ?_)
  · have hne : c ≠ ',' := by
      rintro rfl
      exact hx.2 hc
    exact decide_eq_true hne
  · cases names with
    | nil => cases hc
    | cons y names =>
      obtain rfl := Option.some.inj hc
      rfl

/-- A list that begins with a name is not empty. -/
theorem listed_cons_ne_nil {x : String} (hx : Listable x) (names : List String) :
    listed (x::names) ≠ listed [] := by
  intro h
  have hempty := congrArg String.toList h
  rw [toList_listed_cons] at hempty
  exact hx.1 (String.toList_eq_nil_iff.mp (List.append_eq_nil_iff.mp hempty).1)

/-- Names that can be told from their neighbours are the only ones with their list. -/
theorem listed_inj (hnames : ∀ x ∈ names, Listable x) (hothers : ∀ x ∈ others, Listable x)
    (h : listed names = listed others) : names = others := by
  induction names generalizing others with
  | nil =>
    cases others with
    | nil => rfl
    | cons y others => exact absurd h.symm (listed_cons_ne_nil (hothers y List.mem_cons_self) _)
  | cons x names ih =>
    obtain ⟨hx,hnames⟩ := List.forall_mem_cons.mp hnames
    cases others with
    | nil => exact absurd h (listed_cons_ne_nil hx names)
    | cons y others =>
      obtain ⟨hy,hrest⟩ := List.forall_mem_cons.mp hothers
      have hfirst : x = y := by
        rw [←String.toList_inj,←takeWhile_listed hx names,h,takeWhile_listed hy]
      subst hfirst
      have hbehind := congrArg String.toList h
      rw [toList_listed_cons,toList_listed_cons,List.append_cancel_left_eq] at hbehind
      cases names with
      | nil =>
        cases others with
        | nil => rfl
        | cons y others => cases hbehind
      | cons z names =>
        cases others with
        | nil => cases hbehind
        | cons y others =>
          rw [listedBehind,listedBehind,List.cons.injEq,List.cons.injEq] at hbehind
          have htail : z::names = y::others :=
            ih hnames hrest (String.toList_inj.mp hbehind.2.2)
          rw [htail]

/-- A set of names that can be told from their neighbours is the only one that is written as
it is. -/
theorem render_inj (hs : ∀ x ∈ s, Listable x) (ht : ∀ x ∈ t, Listable x)
    (h : s.render = t.render) : s = t := by
  have hlisted : listed s.names = listed t.names := by
    simpa [render] using h
  have hnames := listed_inj hs ht hlisted
  ext z
  change z ∈ s.names ↔ z ∈ t.names
  rw [hnames]

/-- The set of a list of names is written with its names in increasing order of their bytes,
each of them once. -/
theorem render_ofList (names : List String) :
    ∃ sorted : List String, (ofList names).render = "\x7b"++", ".intercalate sorted++"\x7d" ∧
      (∀ x, x ∈ sorted ↔ x ∈ names) ∧
      sorted.Pairwise fun x y => utf8Bytes x < utf8Bytes y := by
  refine ⟨(ofList names).names,?_,fun x => mem_ofList,?_⟩
  · rw [render,listed_eq_intercalate]
  · exact (ofList names).sorted.imp utf8Bytes_lt_iff.mpr

end NameSet

/-- The names that a diagnostic lists, if it lists any. -/
def ClosureError.names? : ClosureError → Option NameSet
  | .noRuleSets => none
  | .undefined names => some names
  | .unused names => some names

section Texts

variable {text : String} {s : Survey} {e : ClosureError} {names : NameSet}

/-- The names that the check for closure lists are names of non-terminals, and there is at
least one. -/
theorem Survey.listed_of_census (h : survey text = .ok s) (he : s.census = .error e)
    (hnames : e.names? = some names) :
    names ≠ .empty ∧ ∀ x ∈ names, x ∈ nonTerminalNames (tokens text) := by
  have hd := describes_of_survey h
  cases e with
  | noRuleSets => cases hnames
  | undefined others =>
    obtain rfl := Option.some.inj hnames
    obtain ⟨hdefined,hne,hset⟩ := census_eq_undefined_iff.mp he
    refine ⟨fun hempty => hne ?_,fun x hx => ?_⟩
    · rw [←hset,NameSet.toFinset_eq_empty]
      exact hempty
    · have hsize : s.registry.size ≠ 0 := by
        rwa [←Registry.card_definedNames,ne_eq,Finset.card_eq_zero]
      rw [←NameSet.mem_toFinset,hset,Finset.mem_sdiff,Registry.usedNames,
        NameSet.mem_toFinset] at hx
      exact hd.mem_nonTerminalNames_of_mem_used hsize hx.1
  | unused others =>
    obtain rfl := Option.some.inj hnames
    obtain ⟨_,_,hne,hset⟩ := census_eq_unused_iff.mp he
    refine ⟨fun hempty => hne ?_,fun x hx => ?_⟩
    · rw [←hset,NameSet.toFinset_eq_empty]
      exact hempty
    · rw [←NameSet.mem_toFinset,hset,Finset.mem_sdiff,Registry.definedNames,
        NameSet.mem_toFinset] at hx
      exact hd.mem_nonTerminalNames_of_mem_defined hx.1

/-- The names of non-terminals of a text are shaped as such. -/
theorem isName_of_mem_nonTerminalNames {x : String} (h : x ∈ nonTerminalNames (tokens text)) :
    IsName isLower x.toList := by
  obtain ⟨t,ht,hkind,rfl⟩ := h
  have hclass := inClass_of_mem_tokens ht
  rwa [hkind] at hclass

/-- The names that the diagnostic of a text lists. -/
theorem listed_of_census (h : census text = .error (.notClosed e)) (hnames : e.names? = some names) :
    names ≠ .empty ∧ ∀ x ∈ names, x ∈ nonTerminalNames (tokens text) := by
  obtain ⟨s,hs,he⟩ := exists_survey_of_notClosed h
  exact Survey.listed_of_census hs he hnames

/-- They can be told from each other. -/
theorem listable_of_census (h : census text = .error (.notClosed e))
    (hnames : e.names? = some names) : ∀ x ∈ names, NameSet.Listable x :=
  fun x hx => NameSet.listable_of_isName
    (isName_of_mem_nonTerminalNames ((listed_of_census h hnames).2 x hx))

end Texts

/-- A syntax error begins with the number of a line, and no other diagnostic does. -/
theorem SyntaxError.head?_message_ne (e : SyntaxError) : e.message.toList.head? ≠ some 'n' := by
  have hposition (p : Position) (rest : List Char) :
      (p.render.toList++rest).head? ≠ some 'n' := by
    have hline := Dump.not_mem_repr (c := 'n') (by decide) p.line
    rw [Position.render,String.toList_append,String.toList_append]
    cases hdigits : p.line.repr.toList with
    | nil => simp
    | cons c digits =>
      rw [hdigits] at hline
      rintro hc
      obtain rfl := Option.some.inj hc
      exact hline List.mem_cons_self
  cases e with
  | unexpected position lexeme =>
    simp only [message,String.toList_append,List.append_assoc]
    exact hposition position _
  | redefined name position first =>
    simp only [message,String.toList_append,List.append_assoc]
    exact hposition position _

/-- A text begins with the characters of its first part. -/
theorem getElem?_toList_append (label rest : String) {i : Nat} {c : Char}
    (h : label.toList[i]? = some c) : (label++rest).toList[i]? = some c := by
  obtain ⟨hi,_⟩ := List.getElem?_eq_some_iff.mp h
  rw [String.toList_append,List.getElem?_append_left hi,h]

/-- The first character that tells the diagnostics of the check for closure apart. -/
def ClosureError.sign : ClosureError → Char
  | .noRuleSets => '-'
  | .undefined _ => 's'
  | .unused _ => ' '

/-- It is the eighth one. -/
theorem ClosureError.getElem?_message (e : ClosureError) :
    e.message.toList[7]? = some e.sign := by
  cases e with
  | noRuleSets => decide
  | undefined names => exact getElem?_toList_append "no rules for " _ (c := 's') (by decide)
  | unused names => exact getElem?_toList_append "no uses of rules for " _ (c := ' ') (by decide)

/-- A diagnostic is determined by its message if its names can be told apart. -/
theorem ClosureError.eq_of_message {e e' : ClosureError}
    (h : ∀ names, e.names? = some names → ∀ x ∈ names, NameSet.Listable x)
    (h' : ∀ names, e'.names? = some names → ∀ x ∈ names, NameSet.Listable x)
    (hmessage : e.message = e'.message) : e' = e := by
  have hsign : e.sign = e'.sign := by
    rw [←Option.some_inj,←getElem?_message,hmessage,getElem?_message]
  cases e with
  | noRuleSets =>
    cases e' with
    | noRuleSets => rfl
    | undefined _ => simp [sign] at hsign
    | unused _ => simp [sign] at hsign
  | undefined names =>
    cases e' with
    | noRuleSets => simp [sign] at hsign
    | undefined others =>
      have hrender : names.render = others.render := String.append_right_inj _ |>.mp hmessage
      rw [NameSet.render_inj (h names rfl) (h' others rfl) hrender]
    | unused _ => simp [sign] at hsign
  | unused names =>
    cases e' with
    | noRuleSets => simp [sign] at hsign
    | undefined _ => simp [sign] at hsign
    | unused others =>
      have hrender : names.render = others.render := String.append_right_inj _ |>.mp hmessage
      rw [NameSet.render_inj (h names rfl) (h' others rfl) hrender]

/-- The message of a diagnostic that lists names determines it among all errors that texts
have. -/
theorem eq_of_message {text other : String} {e : ClosureError} {e' : AnalysisError}
    {names : NameSet} (h : census text = .error (.notClosed e)) (hnames : e.names? = some names)
    (h' : census other = .error e') (hmessage : e.message = e'.message) : e' = .notClosed e := by
  cases e' with
  | malformed error =>
    refine absurd ?_ error.head?_message_ne
    change e.message = error.message at hmessage
    rw [←hmessage,List.head?_eq_getElem?]
    cases e with
    | noRuleSets => cases hnames
    | undefined set => exact getElem?_toList_append "no rules for " _ (by decide)
    | unused set => exact getElem?_toList_append "no uses of rules for " _ (by decide)
  | notClosed e' =>
    have heq : e' = e := ClosureError.eq_of_message (fun _ => listable_of_census h)
      (fun _ => listable_of_census h') hmessage
    rw [heq]

/-- A set of names is the same, and is written in the same way, whatever list of its members
it was made from. Its names are written once each, in increasing order of their bytes, which
is that of their characters. Names of non-terminals can be read off the written set. Those
that the check for closure lists are lexemes of non-terminals of the text, and there is at
least one, so no other error of any text has the same message. -/
theorem names_of_message :
    (∀ names others : List String, (∀ x, x ∈ names ↔ x ∈ others) →
      NameSet.ofList names = NameSet.ofList others ∧
        (NameSet.ofList names).render = (NameSet.ofList others).render) ∧
    (∀ names : List String, ∃ sorted : List String,
      (NameSet.ofList names).render = "\x7b"++", ".intercalate sorted++"\x7d" ∧
        (∀ x, x ∈ sorted ↔ x ∈ names) ∧
        sorted.Pairwise fun x y => utf8Bytes x < utf8Bytes y) ∧
    (∀ x y : String, utf8Bytes x < utf8Bytes y ↔ x.toList < y.toList) ∧
    (∀ names others : List String, (∀ x ∈ names, IsName isLower x.toList) →
      (∀ x ∈ others, IsName isLower x.toList) →
      (NameSet.ofList names).render = (NameSet.ofList others).render →
      ∀ x, x ∈ names ↔ x ∈ others) ∧
    ∀ text e names, census text = .error (.notClosed e) → e.names? = some names →
      names ≠ .empty ∧
      (∀ x ∈ names, IsName isLower x.toList ∧
        ∃ t ∈ tokens text, t.kind = .nonTerminal ∧ t.lexeme = x) ∧
      ∀ other e', census other = .error e' → e.message = e'.message → e' = .notClosed e := by
  refine ⟨fun names others h => ?_,NameSet.render_ofList,fun x y => ?_,
    fun names others hnames hothers h x => ?_,fun text e names h hnames => ?_⟩
  · have hset := NameSet.ofList_congr h
    exact ⟨hset,congrArg NameSet.render hset⟩
  · rw [utf8Bytes_lt_iff,String.lt_iff_toList_lt]
  · have hlistable {names : List String} (h : ∀ x ∈ names, IsName isLower x.toList) :
        ∀ x ∈ NameSet.ofList names, NameSet.Listable x :=
      fun x hx => NameSet.listable_of_isName (h x (NameSet.mem_ofList.mp hx))
    rw [←NameSet.mem_ofList,NameSet.render_inj (hlistable hnames) (hlistable hothers) h,
      NameSet.mem_ofList]
  · obtain ⟨hne,hmem⟩ := listed_of_census h hnames
    exact ⟨hne,fun x hx => ⟨isName_of_mem_nonTerminalNames (hmem x hx),hmem x hx⟩,
      fun other e' => eq_of_message h hnames⟩

/-- Two names without rules are listed once each, in one order, and whatever other text has
this message has it for these two names. -/
theorem names_of_message_withoutRules :
    let names := NameSet.ofList ["n","m"]
    names.render = (NameSet.ofList ["m","n","m"]).render ∧
      (∀ x, x ∈ ["n","m"] ↔ x ∈ ["m","n","m"]) ∧
      census "s : A n m ;" = .error (.notClosed (.undefined names)) ∧
      names ≠ .empty ∧
      census "s : m ; r : n ;" = .error (.notClosed (.undefined names)) := by
  intro names
  obtain ⟨hset,_,_,hmembers,herror⟩ := names_of_message
  have hnames : ∀ x ∈ ["m","n","m"], IsName isLower x.toList := by
    simp only [List.forall_mem_cons]
    exact ⟨⟨'m',[],rfl,rfl,by simp⟩,⟨'n',[],rfl,rfl,by simp⟩,⟨'m',[],rfl,rfl,by simp⟩,by simp⟩
  have hrender : names.render = (NameSet.ofList ["m","n","m"]).render :=
    (hset ["n","m"] ["m","n","m"] (by grind)).2
  have hcensus : census "s : A n m ;" = .error (.notClosed (.undefined names)) := by
    decide +kernel
  have hother : census "s : m ; r : n ;" =
      .error (.notClosed (.undefined (.ofList ["m","n"]))) := by decide +kernel
  obtain ⟨hne,_,hunique⟩ := herror _ _ names hcensus rfl
  have hsame := hunique _ _ hother (by decide +kernel)
  refine ⟨hrender,hmembers _ _ (fun x hx => hnames x ?_) hnames hrender,hcensus,hne,?_⟩
  · simp at hx ⊢
    tauto
  · rw [hother,hsame]

end GrammarCensus
