import Mathlib.Control.Monad.Basic
import GrammarCensus.Program

/-!
# The verdict of a run

What a run that checks a file says of it. The main statement compares two such runs: the
exit code and standard output are decided by what is read at the path of the file alone.
The settings, the variable of the environment and the options have a say in the log only,
and the log stands on standard error, in front of the diagnostic.
-/

namespace GrammarCensus

open CommandLine (Command)

/-- Some arguments ask for the check of a file, with whatever options. -/
def CommandLine.Command.Checks (arguments : List String) (file : String) : Prop :=
  ∃ traceTokens directory?,
    Command.ofArguments arguments = .analyse (some file) traceTokens directory?

/-- A run has told the outcome of a check: a census on standard output, an error at the
end of standard error, behind the log. -/
inductive Output.Tells : Except CheckError Census → Output → Prop
  /-- There is a census. -/
  | result (c : Census) (log : String) : Tells (.ok c) ⟨0,c.render++"\n",log⟩
  /-- There is an error. -/
  | diagnostic (e : CheckError) (log : String) : Tells (.error e) ⟨1,"",log++(e.message++"\n")⟩

/-- A file has a census when it can be read and its text has one. -/
theorem check_eq_ok_iff {path : String} {contents : Except Files.FileError String} {c : Census} :
    check path contents = .ok c ↔ ∃ text, contents = .ok text ∧ census text = .ok c := by
  cases contents with
  | error e => simp [check]
  | ok text =>
    rw [check_ok]
    cases hc : census text <;> simp [Except.mapError,hc]

/-- What two runs have in common that check a file where the same is read: they end in the
same way, and have the same result. It is the census if what is read is a text with one, and
otherwise there is none, and both diagnostics are that of the error, behind the log. -/
structure Output.SameVerdict (file : String) (contents : Except Files.FileError String)
    (o o' : Output) : Prop where
  /-- They have the same exit code. -/
  exit : o.exit = o'.exit
  /-- They have the same result. -/
  stdout : o.stdout = o'.stdout
  /-- They succeed just for a text with a census. -/
  exit_eq_zero_iff : o.exit = 0 ↔ ∃ text c, contents = .ok text ∧ census text = .ok c
  /-- The result is the line of the census. -/
  result : ∀ {text c}, contents = .ok text → census text = .ok c → o.stdout = c.render++"\n"
  /-- A failure has no result, but the same diagnostic in both runs. -/
  diagnostic : o.exit ≠ 0 → o.exit = 1 ∧ o.stdout = "" ∧ ∃ e, check file contents = .error e ∧
    (∃ log, o.stderr = log++(e.message++"\n")) ∧ ∃ log, o'.stderr = log++(e.message++"\n")

namespace Output.Tells

variable {file : String} {contents : Except Files.FileError String} {o o' : Output}

/-- A run that tells a census succeeds, with the line of the census as its result. -/
theorem of_ok {c : Census} (h : Tells (.ok c) o) : o.exit = 0 ∧ o.stdout = c.render++"\n" := by
  cases h
  exact ⟨rfl,rfl⟩

/-- A run that tells an error fails without a result, and its diagnostic comes last. -/
theorem of_error {e : CheckError} (h : Tells (.error e) o) :
    o.exit = 1 ∧ o.stdout = "" ∧ ∃ log, o.stderr = log++(e.message++"\n") := by
  cases h with
  | diagnostic e log => exact ⟨rfl,rfl,log,rfl⟩

/-- Two runs that tell the outcome of the same check have this in common. -/
theorem sameVerdict (h : o.Tells (check file contents)) (h' : o'.Tells (check file contents)) :
    SameVerdict file contents o o' := by
  cases hcheck : check file contents with
  | ok c =>
    rw [hcheck] at h h'
    obtain ⟨hzero,hline⟩ := h.of_ok
    obtain ⟨hzero',hline'⟩ := h'.of_ok
    obtain ⟨text,htext,hcensus⟩ := check_eq_ok_iff.mp hcheck
    constructor
    case exit => rw [hzero,hzero']
    case stdout => rw [hline,hline']
    case exit_eq_zero_iff => exact ⟨fun _ => ⟨text,c,htext,hcensus⟩,fun _ => hzero⟩
    case result =>
      intro text' c' htext' hcensus'
      have hsame : check file contents = .ok c' := check_eq_ok_iff.mpr ⟨text',htext',hcensus'⟩
      rw [hcheck,Except.ok.injEq] at hsame
      rw [hline,hsame]
    case diagnostic => exact fun hne => absurd hzero hne
  | error e =>
    have hnone : ¬∃ text c, contents = .ok text ∧ census text = .ok c := by
      rintro ⟨text,c,htext,hcensus⟩
      rw [check_eq_ok_iff.mpr ⟨text,htext,hcensus⟩] at hcheck
      cases hcheck
    rw [hcheck] at h h'
    obtain ⟨hone,hempty,hstderr⟩ := h.of_error
    obtain ⟨hone',hempty',hstderr'⟩ := h'.of_error
    constructor
    case exit => rw [hone,hone']
    case stdout => rw [hempty,hempty']
    case exit_eq_zero_iff =>
      rw [hone]
      exact ⟨fun hzero => absurd hzero Nat.one_ne_zero,fun hexists => absurd hexists hnone⟩
    case result => exact fun htext hcensus => absurd ⟨_,_,htext,hcensus⟩ hnone
    case diagnostic => exact fun _ => ⟨hone,hempty,e,hcheck,hstderr,hstderr'⟩

end Output.Tells

namespace Program

/-- Whatever the settings, the environment and the options are, and whatever has been
read, the outcome of the check is told. -/
theorem tells_checkOutput (override? : Option String) (settings : Settings)
    (traceTokens : Bool) (path : String) (contents : Except Files.FileError String) :
    (checkOutput override? settings traceTokens path contents).Tells (check path contents) := by
  rw [checkOutput,verdict]
  cases check path contents with
  | ok c => exact .result c _
  | error e => exact .diagnostic e _

/-- A run that is asked for the check of a file tells its outcome. -/
theorem tells_run {arguments : List String} {file : String} (h : Command.Checks arguments file)
    (override? : Option String) (t : Files.FileTree) :
    (run override? t arguments).1.Tells (check file (t.readText file)) := by
  obtain ⟨traceTokens,directory?,harguments⟩ := h
  rw [run,harguments]
  exact tells_checkOutput override? _ traceTokens file (t.readText file)

/-- Two runs that check the same file, and read the same at its path, end in the same way
and have the same result, whatever their options, the settings that they find and the
variable of the environment are. Nor does it matter which answers the system gives that no
file tree does, such as a refusal, as long as both runs have the same one for the file. -/
theorem run_verdict {override? override'? : Option String} {t t' : Files.FileTree}
    {arguments arguments' : List String} {file : String}
    (h : Command.Checks arguments file) (h' : Command.Checks arguments' file)
    (hread : t.readText file = t'.readText file) :
    Output.SameVerdict file (t.readText file) (run override? t arguments).1
        (run override'? t' arguments').1 ∧
      ∀ settings settings' traceTokens traceTokens' contents,
        Output.SameVerdict file contents (checkOutput override? settings traceTokens file contents)
          (checkOutput override'? settings' traceTokens' file contents) := by
  constructor
  · have ho' := tells_run h' override'? t'
    rw [←hread] at ho'
    exact (tells_run h override? t).sameVerdict ho'
  · intro settings settings' traceTokens traceTokens' contents
    exact (tells_checkOutput override? settings traceTokens file contents).sameVerdict
      (tells_checkOutput override'? settings' traceTokens' file contents)

/-- A run without options, and one with all of them, with other settings and with a
variable of the environment, on a file whose grammar is closed. -/
theorem run_verdict_closedGrammar :
    let t := Files.FileTree.empty.put ⟨["g","work"]⟩ (.file "s : A s | ;".toUTF8)
    let t' := (t.put ⟨["d","work"]⟩ .directory).put ⟨["grammar_stats.toml","d","work"]⟩
      (.file "trace_tokens = true".toUTF8)
    let arguments' := ["--trace-tokens","--config-dir","d","g"]
    (run none t ["g"]).1.exit = 0 ∧ (run none t ["g"]).1.stdout = "1 2 1\n" ∧
      (run (some "debug") t' arguments').1.exit = 0 ∧
      (run (some "debug") t' arguments').1.stdout = "1 2 1\n" := by
  intro t t' arguments'
  have hchecks : Command.Checks ["g"] "g" := ⟨false,none,by decide⟩
  have hchecks' : Command.Checks arguments' "g" := ⟨true,some "d",by decide⟩
  have htext : t.readText "g" = .ok "s : A s | ;" := by decide +kernel
  have htext' : t'.readText "g" = .ok "s : A s | ;" := by decide +kernel
  have hcensus : census "s : A s | ;" = .ok ⟨1,2,1⟩ := by decide +kernel
  obtain ⟨hsame,_⟩ :=
    @run_verdict none (some "debug") t t' _ _ _ hchecks hchecks' (htext.trans htext'.symm)
  have hsuccess := hsame.exit_eq_zero_iff.mpr ⟨_,_,htext,hcensus⟩
  have hline := hsame.result htext hcensus
  exact ⟨hsuccess,hline,hsame.exit.symm.trans hsuccess,hsame.stdout.symm.trans hline⟩

end Program

end GrammarCensus
