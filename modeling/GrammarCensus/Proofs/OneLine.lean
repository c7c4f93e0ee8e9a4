import GrammarCensus.Proofs.ClosureChecks
import GrammarCensus.Proofs.Dump
import GrammarCensus.Proofs.FirstError
import GrammarCensus.Proofs.Verdict

/-!
# One line for a check

A run that nobody has asked for a log prints one line, the census or the diagnostic. The
names in a diagnostic are lexemes, and no lexeme has a newline; what a file cannot be read
for is said in a few fixed words; and with the default settings no event of an analysis is
urgent enough to be written.
-/

namespace GrammarCensus

open CommandLine (Command)

namespace NameSet

/-- Names without newlines are listed in one line. -/
theorem newline_not_mem_listed {names : List String} (h : ∀ x ∈ names, '\n' ∉ x.toList) :
    '\n' ∉ (listed names).toList := by
  induction names with
  | nil => simp [listed]
  | cons x names ih =>
    obtain ⟨hx,hnames⟩ := List.forall_mem_cons.mp h
    cases names with
    | nil => exact hx
    | cons y names => simp [listed,hx,ih hnames]

/-- A set of names without newlines is written in one line, behind a label of one line. -/
theorem newline_not_mem_append_render {s : NameSet} {label : String}
    (hlabel : '\n' ∉ label.toList) (h : ∀ x ∈ s, '\n' ∉ x.toList) :
    '\n' ∉ (label++s.render).toList := by
  simp [render,hlabel,newline_not_mem_listed h]

end NameSet

/-- A census is written in one line. -/
theorem Census.newline_not_mem_render (c : Census) : '\n' ∉ c.render.toList := by
  have hrepr := Dump.not_mem_repr (c := '\n') (by decide)
  simp [render,hrepr,-Nat.toList_repr]

section Texts

variable {text : String} {s : Survey} {name : String}

/-- A defined name is a lexeme of the text. -/
theorem Survey.Describes.exists_token_of_hasDefinition
    (hd : s.Describes (tokens text) (firstToken text))
    (h : s.registry.hasDefinition name = true) : ∃ t ∈ allTokens text, t.lexeme = name := by
  obtain ⟨position,hposition⟩ := Option.isSome_iff_exists.mp h
  obtain ⟨i,t,hi,_,hname,_⟩ := hd.position?_iff.mp hposition
  exact ⟨t,List.mem_of_getElem? hi,hname⟩

/-- A used name is a lexeme of the text. -/
theorem Survey.Describes.exists_token_of_hasUse
    (hd : s.Describes (tokens text) (firstToken text))
    (h : s.registry.hasUse name = true) : ∃ t ∈ allTokens text, t.lexeme = name := by
  rcases hd.hasUse_iff.mp h with ⟨t,hi,hname⟩|⟨i,t,hi,_,hname,_⟩
  · exact ⟨t,List.mem_of_getElem? hi,hname⟩
  · exact ⟨t,List.mem_of_getElem? hi,hname⟩

/-- Lexemes of a text are listed in one line, behind a label of one line. -/
theorem newline_not_mem_append_lexemes {names : NameSet} {label : String}
    (hlabel : '\n' ∉ label.toList) (h : ∀ x ∈ names, ∃ t ∈ allTokens text, t.lexeme = x) :
    '\n' ∉ (label++names.render).toList := by
  refine NameSet.newline_not_mem_append_render hlabel fun x hx => ?_
  obtain ⟨t,ht,rfl⟩ := h x hx
  exact newline_not_mem_lexeme ht

/-- The diagnostic of a syntax error is one line. -/
theorem SyntaxError.newline_not_mem_message {e : SyntaxError} (h : survey text = .error e) :
    '\n' ∉ e.message.toList := by
  obtain ⟨front,t,back,p,hsplit,_,hstep,_⟩ := exists_split_of_survey_error h
  have hmem : t ∈ allTokens text := by
    rw [hsplit]
    exact List.mem_append_right _ List.mem_cons_self
  have hlexeme := newline_not_mem_lexeme hmem
  have hposition := Dump.newline_not_mem_position t.position
  rcases Progress.step_error hstep with ⟨_,rfl⟩|⟨first,_,_,_,rfl⟩
  · simp [message,hposition,hlexeme]
  · simp [message,hposition,hlexeme,Dump.newline_not_mem_position first]

/-- The diagnostic of a closure error is one line. -/
theorem ClosureError.newline_not_mem_message {e : ClosureError} (h : survey text = .ok s)
    (he : s.census = .error e) : '\n' ∉ e.message.toList := by
  have hd := describes_of_survey h
  cases e with
  | noRuleSets => decide
  | undefined names =>
    obtain ⟨_,_,hnames⟩ := Survey.census_eq_undefined_iff.mp he
    refine @newline_not_mem_append_lexemes text names "no rules for " (by decide) fun x hx => ?_
    rw [←NameSet.mem_toFinset,hnames,Finset.mem_sdiff,Registry.mem_usedNames] at hx
    exact hd.exists_token_of_hasUse hx.1
  | unused names =>
    obtain ⟨_,_,_,hnames⟩ := Survey.census_eq_unused_iff.mp he
    refine @newline_not_mem_append_lexemes text names "no uses of rules for " (by decide)
      fun x hx => ?_
    rw [←NameSet.mem_toFinset,hnames,Finset.mem_sdiff,Registry.mem_definedNames] at hx
    exact hd.exists_token_of_hasDefinition hx.1

/-- The diagnostic of every error that a text can have is one line. -/
theorem newline_not_mem_message {e : AnalysisError} (h : census text = .error e) :
    '\n' ∉ e.message.toList := by
  cases hs : survey text with
  | error e' =>
    rw [census_of_survey_error hs] at h
    obtain rfl := Except.error.inj h
    exact SyntaxError.newline_not_mem_message hs
  | ok s =>
    cases hc : s.census with
    | error e' =>
      rw [census_of_not_closed hs hc] at h
      obtain rfl := Except.error.inj h
      exact ClosureError.newline_not_mem_message hs hc
    | ok c =>
      rw [census_of_survey hs hc] at h
      cases h

end Texts

namespace Files

/-- The errors that reading a file can have. -/
inductive FileError.OfReading : FileError → Prop
  /-- Nothing stands at the path. -/
  | notFound : OfReading .notFound
  /-- Something on the way is a file. -/
  | notADirectory : OfReading .notADirectory
  /-- A directory stands at the path. -/
  | isADirectory : OfReading .isADirectory
  /-- The bytes of the file are no text. -/
  | notText : OfReading .notText

/-- The diagnostics of these errors are lines. -/
theorem FileError.OfReading.newline_not_mem_message {e : FileError} (h : e.OfReading) :
    '\n' ∉ e.message.toList := by
  cases h <;> decide

/-- An operation on files fails for no other reasons than reading does. -/
def FailsAsReading {α : Type} (x : Except FileError α) : Prop :=
  ∀ e, x = .error e → e.OfReading

namespace FailsAsReading

variable {α β : Type}

/-- What succeeds does not fail. -/
theorem ok (a : α) : FailsAsReading (.ok a) := fun _ h => by cases h

/-- A failure for such a reason. -/
theorem error {e : FileError} (h : e.OfReading) : FailsAsReading (.error e : Except FileError α) :=
  fun _ he => Except.error.inj he ▸ h

/-- One operation after another. -/
theorem bind {x : Except FileError α} {f : α → Except FileError β} (hx : FailsAsReading x)
    (hf : ∀ a, FailsAsReading (f a)) : FailsAsReading (x >>= f) := by
  cases x with
  | error e => exact fun e' he => hx e' (congrArg Except.error (Except.error.inj he))
  | ok a => exact hf a

end FailsAsReading

namespace FileTree

variable (t : FileTree)

/-- What is no directory is a file, or there is nothing. -/
theorem failsAsReading_checkDirectory (p : Place) : FailsAsReading (t.checkDirectory p) := by
  rw [checkDirectory]
  split
  · exact .error .notFound
  · exact .ok ()
  · exact .error .notADirectory

/-- A way ends early only where it does not pass a directory. -/
theorem failsAsReading_follow (p : Place) (way : List String) :
    FailsAsReading (t.follow p way) := by
  induction way generalizing p with
  | nil => exact .ok p
  | cons part way ih =>
    exact (t.failsAsReading_checkDirectory p).bind fun _ => ih (p.enter part)

/-- A path has no place for one of these reasons. -/
theorem failsAsReading_locate (path : String) : FailsAsReading (t.locate path) := by
  rw [locate]
  split
  · exact .error .notFound
  · refine (t.failsAsReading_follow _ _).bind fun p => ?_
    split
    · exact (t.failsAsReading_checkDirectory p).bind fun _ => .ok p
    · exact .ok p

/-- A file has no text for one of these reasons. -/
theorem failsAsReading_readText (path : String) : FailsAsReading (t.readText path) := by
  have hbytes : FailsAsReading (t.readBytes path) := by
    refine (t.failsAsReading_locate path).bind fun p => ?_
    split
    · exact .error .notFound
    · exact .error .isADirectory
    · exact .ok _
  refine hbytes.bind fun bytes => ?_
  rw [decode]
  split
  · exact .error .notText
  · exact .ok _

end FileTree

end Files

namespace Log

/-- No event of an analysis is a warning or worse. -/
theorem Event.admits_warn (e : Event) : Threshold.admits (some .warn) e.level = false := by
  cases e <;> rfl

/-- The default settings write nothing where nobody asks for more. -/
theorem Setup.write_default (events : List Event) :
    (Setup.ofRun none .default false).write events = "" := by
  have hsetup : Setup.ofRun none .default false = ⟨⟨[⟨"",some .warn⟩]⟩,[]⟩ := by decide +kernel
  have hadmits : (Filter.mk [⟨"",some .warn⟩]).admits = fun _ => false := by
    funext e
    simp [Filter.admits,Filter.deciding?,Filter.moreSpecific,Directive.applies,e.admits_warn]
  rw [hsetup,write,hadmits]
  simp

end Log

/-- The end of a run that prints one line, a result or a diagnostic. -/
inductive Output.OneLine : Output → Prop
  /-- A result is all that is printed. -/
  | result {line : String} : '\n' ∉ line.toList → OneLine (.success (line++"\n"))
  /-- A diagnostic is all that is printed. -/
  | diagnostic {line : String} : '\n' ∉ line.toList → OneLine (.failure line)

/-- Standard output holds the line of a success, standard error that of a failure, and the
other one is empty. -/
theorem Output.OneLine.streams {o : Output} (h : o.OneLine) :
    (o.exit = 0 ∧ o.stderr = "" ∧ ∃ line, '\n' ∉ line.toList ∧ o.stdout = line++"\n") ∨
      (o.exit = 1 ∧ o.stdout = "" ∧ ∃ line, '\n' ∉ line.toList ∧ o.stderr = line++"\n") := by
  cases h with
  | result hline => exact Or.inl ⟨rfl,rfl,_,hline,rfl⟩
  | diagnostic hline => exact Or.inr ⟨rfl,rfl,_,hline,rfl⟩

namespace Program

/-- The outcome of a check is told in one line, if the path has no newline, nor has the
reason why nothing can be read there, if there is one. -/
theorem oneLine_verdict {path : String} {contents : Except Files.FileError String}
    (hpath : '\n' ∉ path.toList)
    (hcontents : ∀ e, contents = .error e → '\n' ∉ e.message.toList) :
    (verdict path contents).OneLine := by
  cases contents with
  | error e =>
    have hmessage := hcontents e rfl
    refine .diagnostic ?_
    simp [CheckError.message,hpath,hmessage]
  | ok text =>
    rw [verdict,check]
    cases hc : census text with
    | error e => exact .diagnostic (newline_not_mem_message hc)
    | ok c => exact .result c.newline_not_mem_render

/-- Without a log a run prints the outcome of the check alone. -/
theorem checkOutput_default (path : String) (contents : Except Files.FileError String) :
    checkOutput none .default false path contents = verdict path contents := by
  rw [checkOutput,Log.Setup.write_default]
  simp [Output.logged]

/-- A run that checks a file of a path without newlines prints one line, where no valid
settings are found, and neither the environment nor the options ask for a log: the census
if there is one, otherwise a diagnostic. The diagnostic of every error that a text can have
is one line. -/
theorem run_oneLine {t : Files.FileTree} {arguments : List String} {file : String}
    {directory? : Option String}
    (harguments : Command.ofArguments arguments = .analyse (some file) false directory?)
    (hfile : '\n' ∉ file.toList)
    (hsettings : Settings.ofDirectory? t (settingsDirectory directory?) = none) :
    let o := (run none t arguments).1
    ((o.exit = 0 ∧ o.stderr = "" ∧ ∃ line, '\n' ∉ line.toList ∧ o.stdout = line++"\n") ∨
      (o.exit = 1 ∧ o.stdout = "" ∧ ∃ line, '\n' ∉ line.toList ∧ o.stderr = line++"\n")) ∧
    ∀ text e, census text = .error e → '\n' ∉ e.message.toList := by
  intro o
  have hdefault : Settings.forDirectory t (some (settingsDirectory directory?)) = .default := by
    rw [Settings.forDirectory,Option.bind_some,hsettings]
    rfl
  have ho : o = verdict file (t.readText file) := by
    rw [←checkOutput_default,←hdefault]
    exact congrArg (fun command => (execute none t command).1) harguments
  have hreading : ∀ e, t.readText file = .error e → '\n' ∉ e.message.toList :=
    fun e he => (t.failsAsReading_readText file e he).newline_not_mem_message
  have hline : o.OneLine := by
    rw [ho]
    exact oneLine_verdict hfile hreading
  exact ⟨hline.streams,fun _ _ => newline_not_mem_message⟩

/-- A stray character in the last line of a file, without settings. -/
theorem run_oneLine_strayCharacter :
    let t := Files.FileTree.empty.put ⟨["g","work"]⟩ (.file "s : A ;\n#".toUTF8)
    let o := (run none t ["g"]).1
    (o.exit = 1 ∧ o.stdout = "" ∧ ∃ line, '\n' ∉ line.toList ∧ o.stderr = line++"\n") ∧
      o.stderr = "2:1: syntax error at '#'\n" := by
  intro t o
  have harguments : Command.ofArguments ["g"] = .analyse (some "g") false none := by decide
  have hsettings : Settings.ofDirectory? t (settingsDirectory none) = none := by
    decide +kernel
  have hexit : o.exit = 1 := by decide +kernel
  obtain ⟨hends,_⟩ := run_oneLine harguments (by decide) hsettings
  rcases hends with ⟨hzero,_⟩|hone
  · rw [hexit] at hzero
    cases hzero
  · exact ⟨hone,by decide +kernel⟩

end Program

end GrammarCensus
