import GrammarCensus.Proofs.Files.Changes
import GrammarCensus.Proofs.OneLine
import GrammarCensus.Proofs.SavedSettings
import GrammarCensus.Session

/-!
# The settings file in a session

Of all that a session can ask for, apart from the writing, making and removing of files as
such, only the creation of settings changes a file tree, and it only adds the settings file
where nothing stands. The main statement says this of every action of every session, and
that settings which have been created are found until an action writes or removes their file.
An attempt that fails leaves the tree as it was, unless the medium has no room for the whole
file: then the first bytes of it stay.
-/

namespace GrammarCensus

open CommandLine (Command)
open Files

/-- How the diagnostic of settings which exist already ends. -/
theorem Files.FileError.getLast?_message_settingsExist (path : String) :
    (FileError.settingsExist path).message.toList.getLast? = some 's' := by
  simp [FileError.message,List.getLast?_append]

/-- No error of reading is worded like that. -/
theorem Files.FileError.OfReading.message_ne {e : FileError} (h : e.OfReading) (path : String) :
    e.message ≠ (FileError.settingsExist path).message := by
  intro heq
  have hlast := congrArg (·.toList.getLast?) heq
  rw [FileError.getLast?_message_settingsExist] at hlast
  revert hlast
  cases h <;> decide

/-- Nor is one with a number of the system. -/
theorem Files.SystemError.message_refusal_ne (e : SystemError) (path : String) :
    e.refusal.message ≠ (FileError.settingsExist path).message := by
  intro heq
  have hlast := congrArg (·.toList.getLast?) heq
  have hrefusal : e.refusal.message.toList.getLast? = some ')' := by
    rw [SystemError.refusal,FileError.message,String.toList_append,List.getLast?_append]
    rfl
  rw [hrefusal,FileError.getLast?_message_settingsExist] at hlast
  cases hlast

/-- A file cannot be written for no other reasons than one cannot be read, or for an error of
the system. -/
theorem Files.FileTree.ofReading_or_refusal {t : FileTree} {path : String} {e : FileError}
    (h : t.locateNew path = .error e) :
    e.OfReading ∨ ∃ reason : SystemError, e = reason.refusal := by
  by_cases hempty : path = ""
  · rw [locateNew,if_pos hempty] at h
    exact Or.inl (Except.error.inj h ▸ .notFound)
  rw [locateNew_of_ne_empty hempty] at h
  cases hfollow : t.follow (t.origin path) (parts path) with
  | error e' =>
    rw [hfollow] at h
    exact Or.inl (Except.error.inj h ▸ t.failsAsReading_follow _ _ e' hfollow)
  | ok p =>
    rw [hfollow] at h
    change (if endsInSlash path then _ else _) = _ at h
    split at h
    · exact Or.inl (Except.error.inj h ▸ .isADirectory)
    · split at h
      · exact Or.inl (Except.error.inj h ▸ .isADirectory)
      · cases hm : t.medium.checkUnlocked with
        | ok _ =>
          rw [hm] at h
          cases h
        | error e' =>
          rw [hm] at h
          exact Or.inr (Except.error.inj h ▸ Medium.checkUnlocked_eq_error hm)

namespace Settings

/-- All settings that are written are read back. -/
theorem ofToml?_toToml (s : Settings) : ofToml? s.toToml = some s := by
  have hlines : s.toToml.toList =
      (givenEntries (some s.logFilter) (some s.traceTokens)).flatMap (·.text) := by
    simp [toToml,givenEntries,toList_logFilterLine,toList_traceTokensLine]
  exact ofToml?_of_perm (List.Perm.refl _) hlines

/-- The path of settings is not empty. -/
theorem path_ne_empty (directory : String) : path directory ≠ "" :=
  join_ne_empty directory (by decide)

/-- The path of settings does not end in a slash. -/
theorem endsInSlash_path (directory : String) : endsInSlash (path directory) = false :=
  endsInSlash_join directory (c := 'l') rfl (by decide)

/-- The bytes of the settings file that is created. -/
def defaultBytes : ByteArray := default.toToml.toUTF8

variable {t t' : FileTree} {directory : String} {p : Place}

/-- Where the default settings stand they are read. -/
theorem ofDirectory?_of_stands (h : t.Stands (path directory) p (.file defaultBytes)) :
    ofDirectory? t directory = some default := by
  rw [ofDirectory?,FileTree.readText_of_stands h,defaultBytes,FileTree.decode_toUTF8]
  exact ofToml?_toToml default

/-- Where something stands at the path of settings none are created. -/
theorem createIn_of_stands {e : Entry} (h : t.Stands (path directory) p e) :
    createIn t directory = (.error (.settingsExist (path directory)),t) :=
  if_pos (FileTree.has_iff.mpr ⟨p,e,h⟩)

/-- Where nothing stands there, they are written. -/
theorem createIn_of_not_stands (h : ¬∃ p e, t.Stands (path directory) p e) :
    createIn t directory = t.write (path directory) defaultBytes :=
  if_neg fun hhas => h (FileTree.has_iff.mp hhas)

/-- The ways in which the creation of settings can end, with the tree that it leaves. -/
inductive Creation (t : FileTree) (directory : String) : Except FileError Unit → FileTree → Prop
  /-- Something stands at their path, and everything is left alone. -/
  | exist {p : Place} {e : Entry} : t.Stands (path directory) p e →
      Creation t directory (.error (.settingsExist (path directory))) t
  /-- Nothing stands there, but no file can be written there. -/
  | fails {e : FileError} : (¬∃ p e, t.Stands (path directory) p e) →
      e.message ≠ (FileError.settingsExist (path directory)).message →
      Creation t directory (.error e) t
  /-- The file is new, but the medium does not take all of it. -/
  | cutShort {e : SystemError} {t' : FileTree} : (¬∃ p e, t.Stands (path directory) p e) →
      t.CutsShort (path directory) defaultBytes e t' → Creation t directory (.error e.refusal) t'
  /-- The file is new and whole. -/
  | succeeds {t' : FileTree} : (¬∃ p e, t.Stands (path directory) p e) →
      t.AddsFile (path directory) defaultBytes t' → Creation t directory (.ok ()) t'

/-- The creation of settings ends in one of these ways. -/
theorem creation_createIn (t : FileTree) (directory : String) :
    Creation t directory (createIn t directory).1 (createIn t directory).2 := by
  by_cases hs : ∃ p e, t.Stands (path directory) p e
  · obtain ⟨p,e,hs⟩ := hs
    rw [createIn_of_stands hs]
    exact .exist hs
  rw [createIn_of_not_stands hs]
  rcases FileTree.write_cases hs defaultBytes with ⟨hok,hadds⟩|⟨e,hlocate,hwrite⟩|⟨e,herror,hcut⟩
  · rw [hok]
    exact .succeeds hs hadds
  · rw [hwrite]
    refine .fails hs ?_
    rcases FileTree.ofReading_or_refusal hlocate with hreading|⟨reason,rfl⟩
    · exact hreading.message_ne _
    · exact reason.message_refusal_ne _
  · rw [herror]
    exact .cutShort hs hcut

namespace Creation

variable {outcome : Except FileError Unit}

/-- A creation that fails leaves the tree as it was, or cuts the file short. -/
theorem of_error {e : FileError} (h : Creation t directory (.error e) t') :
    t' = t ∨ ∃ reason : SystemError, e = reason.refusal ∧
      t.CutsShort (path directory) defaultBytes reason t' := by
  cases h with
  | exist _ => exact Or.inl rfl
  | fails _ _ => exact Or.inl rfl
  | cutShort _ hcut => exact Or.inr ⟨_,rfl,hcut⟩

/-- A creation that succeeds adds the file. -/
theorem of_ok (h : Creation t directory (.ok ()) t') :
    t.AddsFile (path directory) defaultBytes t' := by
  cases h with
  | succeeds _ hadds => exact hadds

/-- Where something stands at the path of settings their creation fails because they exist. -/
theorem outcome_of_stands (h : Creation t directory outcome t')
    (hs : ∃ p e, t.Stands (path directory) p e) :
    outcome = .error (.settingsExist (path directory)) := by
  cases h with
  | exist _ => rfl
  | fails hnot _ | cutShort hnot _ | succeeds hnot _ => exact absurd hs hnot

/-- Where nothing stands there, no failure has the diagnostic that says so. -/
theorem message_ne {e : FileError} (h : Creation t directory (.error e) t')
    (hs : ¬∃ p e, t.Stands (path directory) p e) :
    e.message ≠ (FileError.settingsExist (path directory)).message := by
  cases h with
  | exist hstands => exact absurd ⟨_,_,hstands⟩ hs
  | fails _ hne => exact hne
  | @cutShort reason _ _ _ => exact reason.message_refusal_ne _

/-- However the creation of settings ends, the tree grows. -/
theorem grows (h : Creation t directory outcome t') : t.Grows t' := by
  cases h with
  | exist _ => exact .refl t
  | fails _ _ => exact .refl t
  | cutShort _ hcut =>
    obtain ⟨_,_,_,hadds⟩ := hcut
    exact hadds.grows
  | succeeds _ hadds => exact hadds.grows

end Creation

/-- The default settings are found in a directory, and none can be created there. -/
structure InPlace (t : FileTree) (directory : String) : Prop where
  /-- They are read from the directory. -/
  read : ofDirectory? t directory = some default
  /-- They are those that apply to the directory. -/
  apply : forDirectory t (some directory) = default
  /-- The creation of settings fails because they exist. -/
  exist : createIn t directory = (.error (.settingsExist (path directory)),t)

/-- Settings are in place where the file with the default ones stands at their path. -/
theorem inPlace_of_stands (h : t.Stands (path directory) p (.file defaultBytes)) :
    InPlace t directory where
  read := ofDirectory?_of_stands h
  apply := by
    rw [forDirectory,Option.bind_some,ofDirectory?_of_stands h]
    rfl
  exist := createIn_of_stands h

end Settings

/-- An action is to create settings in a directory. -/
inductive Action.Creates : Action → String → Prop
  /-- The action for just that. -/
  | createSettings (directory : String) : Creates (.createSettings directory) directory
  /-- A run of the program that is asked for it. -/
  | run {arguments : List String} {override? directory? : Option String} :
      Command.ofArguments arguments = .init directory? →
      Creates (.run arguments override?) (Program.initDirectory directory?)

/-- An action is not to change any file: it reads, it checks, or it is a run of the program for
anything but the creation of settings. -/
inductive Action.Looks : Action → Prop
  /-- A file is read. -/
  | read (path : String) : Looks (.read path)
  /-- A file is checked. -/
  | check (path : String) : Looks (.check path)
  /-- The settings of a directory are read. -/
  | readSettings (directory : String) : Looks (.readSettings directory)
  /-- The settings that apply are found. -/
  | settingsFor (directory? : Option String) : Looks (.settingsFor directory?)
  /-- The program runs, and is not to create settings. -/
  | run {arguments : List String} {override? : Option String} :
      (¬∃ directory?, Command.ofArguments arguments = .init directory?) →
      Looks (.run arguments override?)

/-- An action writes or removes the file at a place. -/
inductive Action.Touches (t : FileTree) (p : Place) : Action → Prop
  /-- A file is written there, in full or not. -/
  | write {path : String} {bytes : ByteArray} :
      t.locateNew path = .ok p → Touches t p (.write path bytes)
  /-- A file is removed at a path that leads to the place. -/
  | remove {path : String} {t' : FileTree} :
      t.Leads (t.origin path) (parts path) p → t.remove path = .ok t' →
      Touches t p (.remove path)

/-- A reply tells that settings could not be created, and why. -/
inductive Reply.Fails : Reply → FileError → Prop
  /-- The error itself. -/
  | failed (e : FileError) : Fails (.failed e) e
  /-- A run that ends with the diagnostic of the error. -/
  | ran (e : FileError) : Fails (.ran (.failure e.message)) e

/-- A reply tells that settings have been created in a directory. -/
inductive Reply.Succeeds : Reply → String → Prop
  /-- The path of the settings. -/
  | written (directory : String) : Succeeds (.written (Settings.path directory)) directory
  /-- A run that ends with a line with that path. -/
  | ran (directory : String) : Succeeds (.ran (Program.initOutput directory)) directory

namespace Reply

variable {reply : Reply} {directory : String} {e e' : FileError}

/-- Of two errors that a reply may tell the diagnostics are the same. -/
theorem Fails.message_eq (h : reply.Fails e) (h' : reply.Fails e') : e.message = e'.message := by
  cases h with
  | failed e =>
    cases h'
    rfl
  | ran e =>
    generalize ho : Output.failure e.message = o at h'
    cases h' with
    | ran e' =>
      have hstderr := congrArg Output.stderr ho
      simpa [Output.failure] using hstderr

/-- A reply does not tell an error and a success at once. -/
theorem Succeeds.not_fails (h : reply.Succeeds directory) : ¬reply.Fails e := by
  cases h with
  | written directory => rintro ⟨⟩
  | ran directory =>
    generalize ho : Program.initOutput directory = o
    rintro ⟨⟩
    have hexit := congrArg Output.exit ho
    exact absurd hexit (by simp [Program.initOutput,Output.success,Output.failure])

end Reply

namespace Session

/-- How an action changes a file tree. -/
inductive Changes (t : FileTree) : Action → FileTree → Prop
  /-- Something may be made where nothing stood. -/
  | grows {action : Action} {t' : FileTree} : t.Grows t' → Changes t action t'
  /-- A file is written, in full or not. -/
  | write {path : String} {bytes taken : ByteArray} {p : Place} {t' : FileTree} :
      t.locateNew path = .ok p → t.SetsFile p taken t' → Changes t (.write path bytes) t'
  /-- A file is removed. -/
  | remove {path : String} {bytes : ByteArray} {p : Place} : t.Stands path p (.file bytes) →
      t.remove path = .ok (t.delete p) → Changes t (.remove path) (t.delete p)

variable {t : FileTree} {action : Action} {directory : String}

/-- The tree after a change is the one that the change leaves. -/
theorem changed_snd (reply : Reply) (r : Except FileError Unit × FileTree) :
    (changed reply r).2 = r.2 := by
  rcases r with ⟨_|_,_⟩ <;> rfl

/-- An attempt to create settings leaves the tree as the creation of settings does, and tells how
that ends. -/
theorem step_of_creates (h : action.Creates directory) (t : FileTree) :
    (∃ e, Settings.Creation t directory (.error e) (step t action).2 ∧
      (step t action).1.Fails e) ∨
    Settings.Creation t directory (.ok ()) (step t action).2 ∧
      (step t action).1.Succeeds directory := by
  cases h with
  | createSettings directory =>
    have hcreation := Settings.creation_createIn t directory
    rw [step]
    generalize Settings.createIn t directory = r at hcreation
    rcases r with ⟨e|_,t'⟩
    · exact Or.inl ⟨e,hcreation,.failed e⟩
    · exact Or.inr ⟨hcreation,.written directory⟩
  | @run arguments override? directory? harguments =>
    have hcreation := Settings.creation_createIn t (Program.initDirectory directory?)
    rw [step,Program.run,harguments,Program.execute]
    generalize Settings.createIn t (Program.initDirectory directory?) = r at hcreation
    rcases r with ⟨e|_,t'⟩
    · exact Or.inl ⟨e,hcreation,.ran e⟩
    · exact Or.inr ⟨hcreation,.ran _⟩

/-- A run of the program for anything but the creation of settings leaves the tree as it was. -/
theorem step_run_of_ne_init {arguments : List String} (override? : Option String)
    (h : ¬∃ directory?, Command.ofArguments arguments = .init directory?) (t : FileTree) :
    (step t (.run arguments override?)).2 = t := by
  rw [step,Program.run]
  cases hc : Command.ofArguments arguments with
  | init directory? => exact absurd ⟨directory?,hc⟩ h
  | analyse file? => cases file? <;> rfl
  | tokens | help | version | invalid => rfl

/-- An action that only looks leaves the tree as it was. -/
theorem step_of_looks (h : action.Looks) (t : FileTree) : (step t action).2 = t := by
  cases h with
  | read | check | readSettings | settingsFor => rfl
  | @run arguments override? hinit => exact step_run_of_ne_init override? hinit t

/-- Every action changes the tree in one of these ways. -/
theorem changes_step (t : FileTree) (action : Action) : Changes t action (step t action).2 := by
  have hgrows {directory : String} (h : action.Creates directory) :
      Changes t action (step t action).2 := by
    rcases step_of_creates h t with ⟨_,hcreation,_⟩|⟨hcreation,_⟩
    · exact .grows hcreation.grows
    · exact .grows hcreation.grows
  cases action with
  | write path bytes =>
    rw [step,changed_snd]
    cases hlocate : t.locateNew path with
    | error e =>
      rw [FileTree.write_of_error hlocate]
      exact .grows (.refl t)
    | ok p => exact .write hlocate (FileTree.setsFile_write hlocate bytes)
  | remove path =>
    rw [step]
    cases hr : t.remove path with
    | error e => exact .grows (.refl t)
    | ok t' =>
      obtain ⟨_,p,bytes,hs,rfl⟩ := FileTree.remove_eq_ok_iff.mp hr
      exact .remove hs hr
  | makeDirectory path =>
    rw [step,changed_snd]
    exact .grows (FileTree.grows_makeDirectory path t)
  | setMedium medium => exact .grows ⟨rfl,id⟩
  | read | check | readSettings | settingsFor => exact .grows (.refl t)
  | createSettings directory => exact hgrows (.createSettings directory)
  | run arguments override? =>
    by_cases hinit : ∃ directory?, Command.ofArguments arguments = .init directory?
    · obtain ⟨directory?,hinit⟩ := hinit
      exact hgrows (.run hinit)
    · rw [step_run_of_ne_init override? hinit]
      exact .grows (.refl t)

/-- No action goes to another working directory. -/
theorem Changes.working_eq {t' : FileTree} (h : Changes t action t') : t'.working = t.working := by
  cases h with
  | grows h => exact h.working_eq
  | write _ hsets => exact hsets.working_eq
  | remove _ _ => rfl

/-- No action takes a directory away. -/
theorem Changes.keeps_directory {t' : FileTree} (h : Changes t action t') {q : Place}
    (hq : t.at? q = some .directory) : t'.at? q = some .directory := by
  cases h with
  | grows h => exact h.keeps hq
  | @write path bytes taken p t' hlocate hsets =>
    obtain ⟨_,_,_,hdirectory,_⟩ := FileTree.locateNew_eq_ok_iff.mp hlocate
    have hne : q ≠ p := by
      rintro rfl
      exact hdirectory hq
    rw [hsets.at?_eq,if_neg hne,hq]
  | @remove path bytes p hs _ =>
    have hp : t.at? p ≠ some .directory := by simp [hs.at?_eq]
    have hne : q ≠ p := by
      rintro rfl
      exact hp hq
    rw [t.at?_delete (FileTree.holds_eq_false hp),if_neg hne,hq]

/-- An action that does not touch a file leaves it as it is. -/
theorem Changes.keeps_file {t' : FileTree} {p : Place} {bytes : ByteArray} (h : Changes t action t')
    (htouches : ¬action.Touches t p) (hp : t.at? p = some (.file bytes)) :
    t'.at? p = some (.file bytes) := by
  cases h with
  | grows h => exact h.keeps hp
  | @write path bytes' taken q t' hlocate hsets =>
    have hne : p ≠ q := by
      rintro rfl
      exact htouches (.write hlocate)
    rw [hsets.at?_eq,if_neg hne,hp]
  | @remove path bytes' q hs hr =>
    have hq : t.at? q ≠ some .directory := by simp [hs.at?_eq]
    have hne : p ≠ q := by
      rintro rfl
      exact htouches (.remove hs.leads hr)
    rw [t.at?_delete (FileTree.holds_eq_false hq),if_neg hne,hp]

/-- A file that stands at a path stands there after an action that does not touch it. -/
theorem stands_step {path : String} {p : Place} {bytes : ByteArray}
    (h : t.Stands path p (.file bytes)) (htouches : ¬action.Touches t p) :
    (step t action).2.Stands path p (.file bytes) := by
  have hchanges := changes_step t action
  exact h.mono hchanges.working_eq (hchanges.keeps_file htouches h.at?_eq) fun _ =>
    hchanges.keeps_directory

/-- The tree after a number of actions. -/
def treeAfter (t : FileTree) (actions : List Action) (n : Nat) : FileTree :=
  (steps t (actions.take n)).2

/-- Each action takes the tree that the actions before it left to the next one. -/
theorem treeAfter_succ {actions : List Action} {n : Nat} (h : actions[n]? = some action) :
    treeAfter t actions (n+1) = (step (treeAfter t actions n) action).2 := by
  induction actions generalizing t n with
  | nil => cases h
  | cons first actions ih =>
    cases n with
    | zero =>
      obtain rfl := Option.some.inj h
      rfl
    | succ n => exact ih (t := (step t first).2) h

/-- Behind the last action the tree stays. -/
theorem treeAfter_of_none {actions : List Action} {n : Nat} (h : actions[n]? = none) :
    treeAfter t actions (n+1) = treeAfter t actions n := by
  have hn := List.getElem?_eq_none_iff.mp h
  rw [treeAfter,treeAfter,List.take_of_length_le hn,List.take_of_length_le (Nat.le_succ_of_le hn)]

/-- The replies are those to each action on the tree that the actions before it left. -/
theorem replies_eq {actions : List Action} {n : Nat} (h : actions[n]? = some action) :
    (steps t actions).1[n]? = some (step (treeAfter t actions n) action).1 := by
  induction actions generalizing t n with
  | nil => cases h
  | cons first actions ih =>
    cases n with
    | zero =>
      obtain rfl := Option.some.inj h
      rfl
    | succ n => exact ih (t := (step t first).2) h

/-- A file that stands at a path after some actions stands there until an action touches it. -/
theorem stands_treeAfter {actions : List Action} {path : String} {p : Place} {bytes : ByteArray}
    {n m : Nat} (h : (treeAfter t actions n).Stands path p (.file bytes)) (hm : n ≤ m)
    (htouches : ∀ k a, n ≤ k → k < m → actions[k]? = some a →
      ¬a.Touches (treeAfter t actions k) p) :
    (treeAfter t actions m).Stands path p (.file bytes) := by
  induction m, hm using Nat.le_induction with
  | base => exact h
  | succ m hm ih =>
    have hbefore := ih fun k a hk hlt => htouches k a hk (Nat.lt_succ_of_lt hlt)
    cases ha : actions[m]? with
    | none => rwa [treeAfter_of_none ha]
    | some a =>
      rw [treeAfter_succ ha]
      exact stands_step hbefore (htouches m a hm (Nat.lt_succ_self m) ha)

/-- An attempt to create settings fails because they exist when something, file or directory,
stands at their path. -/
theorem fails_settingsExist_iff (h : action.Creates directory) (t : FileTree) :
    (step t action).1.Fails (.settingsExist (Settings.path directory)) ↔
      ∃ p e, t.Stands (Settings.path directory) p e := by
  constructor
  · intro hexist
    by_contra hs
    rcases step_of_creates h t with ⟨e,hcreation,he⟩|⟨_,hsucceeds⟩
    · exact hcreation.message_ne hs (he.message_eq hexist)
    · exact hsucceeds.not_fails hexist
  · intro hs
    rcases step_of_creates h t with ⟨e,hcreation,he⟩|⟨hcreation,_⟩
    · obtain rfl := Except.error.inj (hcreation.outcome_of_stands hs)
      exact he
    · cases hcreation.outcome_of_stands hs

/-- In every session, whatever is written, made and removed in between, and whatever the medium
takes, an action that only looks leaves the files as they are. An attempt to create settings
fails because they exist just where something stands at their path. When it fails it leaves the
files as they are, unless the medium is limited and cuts the new file short. When it succeeds it
adds the settings file and nothing else. From then on, and until an action writes or removes
that file, the default settings are found in the directory, and cannot be created there
again. -/
theorem steps_settings (t : FileTree) {actions : List Action} {n : Nat}
    (h : actions[n]? = some action) :
    ∃ reply, (steps t actions).1[n]? = some reply ∧
      (action.Looks → treeAfter t actions (n+1) = treeAfter t actions n) ∧
      ∀ directory, action.Creates directory →
        (reply.Succeeds directory ∨ ∃ e, reply.Fails e) ∧
        (reply.Fails (.settingsExist (Settings.path directory)) ↔
          ∃ p e, (treeAfter t actions n).Stands (Settings.path directory) p e) ∧
        (∀ e, reply.Fails e → treeAfter t actions (n+1) = treeAfter t actions n ∨
          ∃ reason : SystemError, reply.Fails reason.refusal ∧
            (treeAfter t actions n).CutsShort (Settings.path directory) Settings.defaultBytes
              reason (treeAfter t actions (n+1))) ∧
        (reply.Succeeds directory →
          (treeAfter t actions n).AddsFile (Settings.path directory) Settings.defaultBytes
            (treeAfter t actions (n+1)) ∧
          ∃ p, (treeAfter t actions (n+1)).Stands (Settings.path directory) p
              (.file Settings.defaultBytes) ∧
            ∀ m, n < m → (∀ k a, n < k → k < m → actions[k]? = some a →
                ¬a.Touches (treeAfter t actions k) p) →
              Settings.InPlace (treeAfter t actions m) directory) := by
  refine ⟨_,replies_eq h,?_,fun directory hcreates => ?_⟩
  · intro hlooks
    rw [treeAfter_succ h,step_of_looks hlooks]
  rw [treeAfter_succ h]
  have hattempt := step_of_creates hcreates (treeAfter t actions n)
  refine ⟨?_,fails_settingsExist_iff hcreates _,?_,?_⟩
  · rcases hattempt with ⟨e,_,he⟩|⟨_,hsucceeds⟩
    · exact Or.inr ⟨e,he⟩
    · exact Or.inl hsucceeds
  · intro e he
    rcases hattempt with ⟨_,hcreation,he'⟩|⟨_,hsucceeds⟩
    · rcases hcreation.of_error with htree|⟨reason,rfl,hcut⟩
      · exact Or.inl htree
      · exact Or.inr ⟨reason,he',hcut⟩
    · exact absurd he hsucceeds.not_fails
  · intro hsucceeds
    rcases hattempt with ⟨_,_,he⟩|⟨hcreation,_⟩
    · exact absurd he hsucceeds.not_fails
    obtain ⟨p,hs⟩ := hcreation.of_ok.stands (Settings.path_ne_empty directory)
      (Settings.endsInSlash_path directory)
    refine ⟨hcreation.of_ok,p,hs,fun m hm htouches => ?_⟩
    rw [←treeAfter_succ h] at hs
    exact Settings.inPlace_of_stands (stands_treeAfter hs hm htouches)

/-- A run of the program creates settings in a directory that has been made, after a first
attempt without it. They stay in place while another file of the directory is written and
removed, at paths that lead there from the root and past the working directory. -/
theorem steps_settings_afterInit :
    let actions : List Action := [.createSettings "d",.makeDirectory "d",.run ["init","d"] none,
      .write "/work/d/g" "s : ;".toUTF8,.remove "../work/d//g"]
    treeAfter .empty actions 1 = .empty ∧ Settings.InPlace (treeAfter .empty actions 5) "d" := by
  intro actions
  constructor
  · obtain ⟨reply,hreply,_,hcreated⟩ := @steps_settings _ .empty actions 0 rfl
    obtain ⟨_,_,hfails,_⟩ := hcreated "d" (.createSettings "d")
    have hnotFound : reply = .failed .notFound := (Option.some.inj hreply).symm
    rcases hfails .notFound (hnotFound ▸ .failed .notFound) with htree|⟨_,_,_,hlimited,_⟩
    · exact htree
    · cases hlimited
  · obtain ⟨reply,hreply,_,hcreated⟩ := @steps_settings _ .empty actions 2 rfl
    have hinit : Command.ofArguments ["init","d"] = .init (some "d") := by decide
    obtain ⟨_,_,_,hsucceeds⟩ := hcreated "d" (.run hinit)
    have hran : reply = .ran (Program.initOutput "d") := (Option.some.inj hreply).symm
    obtain ⟨_,p,hs,hkept⟩ := hsucceeds (hran ▸ .ran "d")
    have hplace : p = ⟨["grammar_stats.toml","d","work"]⟩ :=
      hs.leads.unique (FileTree.follow_eq_ok_iff.mp (by decide +kernel))
    refine hkept 5 (by decide) fun k a hk hlt ha htouches => ?_
    obtain rfl|rfl : k = 3 ∨ k = 4 := by omega
    · obtain rfl := Option.some.inj ha
      cases htouches with
      | write hlocate =>
        have hother : (treeAfter .empty actions 3).locateNew "/work/d/g" =
            .ok ⟨["g","d","work"]⟩ := by decide +kernel
        rw [hother,hplace] at hlocate
        exact absurd hlocate (by decide)
    · obtain rfl := Option.some.inj ha
      cases htouches with
      | remove hleads _ =>
        have hother : p = ⟨["g","d","work"]⟩ :=
          hleads.unique (FileTree.follow_eq_ok_iff.mp (by decide +kernel))
        rw [hplace] at hother
        exact absurd hother (by decide)

/-- Where there is no room for the settings a run of the program fails and leaves an empty file.
From then on settings cannot be created there, since they exist; but a run of the program does
not say so when the directory is written as nothing. -/
theorem run_init_withoutRoom :
    let actions : List Action := [.setMedium (.limited 0 ⟨"No space left on device",28⟩),
      .run ["init"] none,.createSettings "",.run ["init",""] none]
    let place : Place := ⟨["grammar_stats.toml","work"]⟩
    ((steps .empty actions).1[1]? =
        some (.ran (.failure "No space left on device (os error 28)")) ∧
      (treeAfter .empty actions 1).at? place = none ∧
      (treeAfter .empty actions 2).at? place = some (.file .empty) ∧
      treeAfter .empty actions 2 ≠ treeAfter .empty actions 1) ∧
    (steps .empty actions).1[2]? = some (.failed (.settingsExist "grammar_stats.toml")) ∧
    (steps .empty actions).1[3]? = some (.ran .misuse) := by
  intro actions place
  have hbefore : (treeAfter .empty actions 1).at? place = none := by decide +kernel
  have hafter : (treeAfter .empty actions 2).at? place = some (.file .empty) := by decide +kernel
  refine ⟨⟨rfl,hbefore,hafter,fun heq => ?_⟩,rfl,rfl⟩
  rw [heq,hbefore] at hafter
  cases hafter

end Session

end GrammarCensus
