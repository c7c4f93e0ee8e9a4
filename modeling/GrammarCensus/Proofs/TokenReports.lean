import Mathlib.Data.List.Basic
import GrammarCensus.Proofs.Dump

/-!
# Runs that report tokens

A run can be asked to report every token, by an option or by the settings, whatever its log
filter is. The main statement compares such a run with one that is not asked for that and is
the same otherwise: all that recognition reports is written, each event on a line of its own
that holds its target and the token or the numbers, the lines of every other target are the
same, and so are the result, the diagnostic and the exit code.
-/

namespace GrammarCensus

open CommandLine (Command)

namespace Log

/-- Whether an event is one of recognition. -/
def Event.isRecognition (e : Event) : Bool :=
  e.target = recognitionTarget

/-- An event without the field that says whether tokens are reported. -/
def Event.withoutSwitch : Event → Event
  | .initialised logFilter _ => .initialised logFilter false
  | e => e

/-- That field has no say in the target. -/
@[simp] theorem Event.target_withoutSwitch (e : Event) : e.withoutSwitch.target = e.target := by
  cases e <;> rfl

/-- Nor in the level. -/
@[simp] theorem Event.level_withoutSwitch (e : Event) : e.withoutSwitch.level = e.level := by
  cases e <;> rfl

/-- What stands on the line of an event of recognition: the level, the target, the message, and
the token or the numbers. -/
inductive Event.Reports : Event → String → Prop
  /-- The token that comes next. -/
  | lookahead (token : Token) : Reports (.lookahead token)
      ("TRACE grammar_syntax::parser: lookahead token="++token.render)
  /-- The numbers of a specification that has been recognized. -/
  | recognized (ruleSets nonTerminals terminals : Nat) :
      Reports (.recognized ruleSets nonTerminals terminals)
        ("DEBUG grammar_syntax::parser: grammar recognized rule_sets="++ruleSets.repr++
          " non_terminals="++nonTerminals.repr++" terminals="++terminals.repr)

/-- The line of such an event is that and the newline. -/
theorem Event.Reports.line_eq {e : Event} {words : String} (h : e.Reports words) :
    e.line = words++"\n" := by
  cases h with
  | lookahead token => exact line_lookahead token
  | recognized ruleSets nonTerminals terminals =>
    exact line_recognized ruleSets nonTerminals terminals

/-- A directive for recognition has no say in any other event. -/
theorem Event.not_applies_tokenTrace {e : Event} (h : e.isRecognition = false) :
    Filter.tokenTrace.applies e.target = false := by
  have hlogging : Filter.tokenTrace.applies "grammar_stats::logging" = false := by decide
  have hanalysis : Filter.tokenTrace.applies "grammar_stats::analysis" = false := by decide
  have hclosure : Filter.tokenTrace.applies closureTarget = false := by decide
  cases e with
  | initialised => exact hlogging
  | reading => exact hanalysis
  | lookahead => cases h
  | recognized => cases h
  | undefined => exact hclosure
  | unused => exact hclosure
  | closed => exact hclosure

namespace Filter

variable (f : Filter)

/-- With token reports an event is written if it is one of recognition, whatever the filter
says on that, or if it is written without them. -/
theorem admits_add_tokenTrace (e : Event) :
    (f.add tokenTrace).admits e = (e.isRecognition || f.admits e) := by
  cases hrecognition : e.isRecognition with
  | true =>
    have htarget : e.target = tokenTrace.target := of_decide_eq_true hrecognition
    rw [admits,htarget,deciding?_add_self]
    exact Threshold.admits_trace e.level
  | false =>
    rw [admits,deciding?_add_of_not_applies (Event.not_applies_tokenTrace hrecognition),
      Bool.false_or,admits]

/-- A filter has no regard to the field that says whether tokens are reported. -/
theorem admits_withoutSwitch (e : Event) : f.admits e.withoutSwitch = f.admits e := by
  rw [admits,Event.target_withoutSwitch,Event.level_withoutSwitch,admits]

end Filter

/-- A text is nothing but whole lines. -/
def WholeLines (text : String) : Prop :=
  text = "" ∨ text.toList.getLast? = some '\n'

/-- A text has a line of its own with some words. -/
def HasLine (text words : String) : Prop :=
  '\n' ∉ words.toList ∧ ∃ front back, WholeLines front ∧ text = front++words++"\n"++back

/-- Whole lines behind whole lines are whole lines. -/
theorem WholeLines.append {front text : String} (hfront : WholeLines front)
    (h : WholeLines text) : WholeLines (front++text) := by
  rcases h with rfl|h
  · rwa [String.append_empty]
  · refine Or.inr ?_
    rw [String.toList_append,List.getLast?_append,h,Option.some_or]

/-- Texts of whole lines make up whole lines together. -/
theorem wholeLines_join {texts : List String} (h : ∀ text ∈ texts, WholeLines text) :
    WholeLines (String.join texts) := by
  induction texts with
  | nil => exact Or.inl rfl
  | cons text texts ih =>
    obtain ⟨htext,htexts⟩ := List.forall_mem_cons.mp h
    rw [String.join_cons]
    exact htext.append (ih htexts)

/-- The lines of events are whole. -/
theorem wholeLines_lines (log : List Event) : WholeLines (String.join (log.map Event.line)) := by
  refine wholeLines_join fun text htext => ?_
  obtain ⟨e,_,rfl⟩ := List.mem_map.mp htext
  exact Or.inr e.getLast?_line

/-- So are those on the pieces of a filter that are left out. -/
theorem Setup.wholeLines_ignored (override? : Option String) (logFilter : String) :
    WholeLines (String.join (Setup.base override? logFilter).ignored) := by
  rw [Setup.base]
  split
  · exact Or.inl rfl
  · refine wholeLines_join fun text htext => ?_
    obtain ⟨piece,_,hpiece⟩ := List.mem_filterMap.mp htext
    rw [Filter.ignoredLine?] at hpiece
    split at hpiece
    · cases hpiece
    · obtain rfl := Option.some.inj hpiece
      refine Or.inr ?_
      rw [String.toList_append,List.getLast?_append]
      rfl

/-- An event in a log has its line between whole lines and what else there is. -/
theorem hasLine_of_mem {log : List Event} {e : Event} {words front : String} (he : e ∈ log)
    (hwords : e.Reports words) (hnewline : '\n' ∉ words.toList) (hfront : WholeLines front)
    (back : String) : HasLine (front++String.join (log.map Event.line)++back) words := by
  obtain ⟨before,behind,rfl⟩ := List.append_of_mem he
  refine ⟨hnewline,front++String.join (before.map Event.line),
    String.join (behind.map Event.line)++back,hfront.append (wholeLines_lines before),?_⟩
  simp [hwords.line_eq,String.append_assoc]

/-- How the log of a run that reports tokens relates to that of one that does not, where
recognition has these events. -/
structure AddsTokens (recognition log log' : List Event) : Prop where
  /-- All events of recognition are written, in their order. -/
  recognition : log.filter (·.isRecognition) = recognition
  /-- The other events are those that are written without token reports. -/
  others : (log.filter (!·.isRecognition)).map Event.withoutSwitch =
    (log'.filter (!·.isRecognition)).map Event.withoutSwitch
  /-- Nothing is lost that is written without token reports. -/
  kept : (log'.map Event.withoutSwitch).Sublist (log.map Event.withoutSwitch)

/-- A filter to which token reports are added writes them all and changes nothing else. The
events of the two runs may differ in the field that says whether tokens are reported. -/
theorem addsTokens_filter (f : Filter) {events events' : List Event}
    (h : events.map Event.withoutSwitch = events'.map Event.withoutSwitch) :
    AddsTokens (events.filter (·.isRecognition))
      (events.filter (f.add Filter.tokenTrace).admits) (events'.filter f.admits) := by
  have hadmits : (f.add Filter.tokenTrace).admits = fun e => e.isRecognition || f.admits e :=
    funext f.admits_add_tokenTrace
  have hfield (p : Event → Bool) (hp : ∀ e, p e.withoutSwitch = p e) (events : List Event) :
      (events.filter p).map Event.withoutSwitch = (events.map Event.withoutSwitch).filter p := by
    rw [List.filter_map]
    exact congrArg _ (List.filter_congr fun e _ => (hp e).symm)
  have hbase := hfield f.admits f.admits_withoutSwitch
  constructor
  case recognition =>
    rw [hadmits,List.filter_filter]
    exact List.filter_congr fun e _ => by
      cases e.isRecognition <;> rfl
  case others =>
    have hother (e : Event) : (!e.isRecognition && (e.isRecognition || f.admits e)) =
        (!e.isRecognition && f.admits e) := by
      cases e.isRecognition <;> simp
    have hboth := hfield (fun e => !e.isRecognition && f.admits e) fun e => by
      rw [Event.isRecognition,Event.target_withoutSwitch,f.admits_withoutSwitch,
        Event.isRecognition]
    rw [hadmits,List.filter_filter,List.filter_filter]
    simp only [hother]
    rw [hboth,hboth,h]
  case kept =>
    rw [hbase,←h,←hbase,hadmits]
    exact (List.monotone_filter_right events fun e he => by simp [he]).map _

end Log

/-- All that recognition reports of what is read at a path. -/
def recognitionEvents (contents : Except Files.FileError String) : List Log.Event :=
  match contents with
  | .error _ => []
  | .ok text => (Recognition.ofText text).events

/-- The events of recognition have the target of recognition. -/
theorem Recognition.isRecognition_of_mem_events {r : Recognition} {e : Log.Event}
    (h : e ∈ r.events) : e.isRecognition := by
  rcases List.mem_append.mp h with h|h
  · obtain ⟨t,_,rfl⟩ := List.mem_map.mp h
    rfl
  · cases hr : r.outcome with
    | error error =>
      rw [hr] at h
      cases h
    | ok s =>
      rw [hr] at h
      obtain rfl := List.mem_singleton.mp h
      rfl

/-- Recognition of a text looks at tokens of that text only. -/
theorem Recognition.mem_allTokens_of_mem_examined {text : String} {t : Token}
    (h : t ∈ (Recognition.ofText text).examined) : t ∈ allTokens text := by
  rw [Recognition.ofText_eq_ofTokens] at h
  exact (Recognition.examined_follow_prefix _ _ _).subset h

/-- Every event of recognition has words for its line, and no newline is among them. -/
theorem exists_reports {contents : Except Files.FileError String} {e : Log.Event}
    (h : e ∈ recognitionEvents contents) : ∃ words, e.Reports words ∧ '\n' ∉ words.toList := by
  cases contents with
  | error _ => cases h
  | ok text =>
    rcases List.mem_append.mp h with h|h
    · obtain ⟨t,ht,rfl⟩ := List.mem_map.mp h
      have htoken := Dump.newline_not_mem_render
        (newline_not_mem_lexeme (Recognition.mem_allTokens_of_mem_examined ht))
      exact ⟨_,.lookahead t,by simp [htoken]⟩
    · cases hr : (Recognition.ofText text).outcome with
      | error error =>
        rw [hr] at h
        cases h
      | ok s =>
        rw [hr] at h
        obtain rfl := List.mem_singleton.mp h
        have hrepr := Dump.not_mem_repr (c := '\n') (by decide)
        exact ⟨_,.recognized _ _ _,by simp [hrepr,-Nat.toList_repr]⟩

/-- The check for closure has no event of that target. -/
theorem Survey.not_isRecognition_of_mem_events {s : Survey} {e : Log.Event}
    (h : e ∈ s.events) : e.isRecognition = false := by
  rw [Survey.events] at h
  split at h
  · cases h
  all_goals
    obtain rfl := List.mem_singleton.mp h
    rfl

/-- The events of recognition are those of a check that have its target. -/
theorem filter_checkEvents (path : String) (contents : Except Files.FileError String) :
    (checkEvents path contents).filter (·.isRecognition) = recognitionEvents contents := by
  have hreading : (Log.Event.reading path).isRecognition = false := rfl
  cases contents with
  | error e => rfl
  | ok text =>
    have hrecognition : (Recognition.ofText text).events.filter (·.isRecognition) =
        (Recognition.ofText text).events :=
      List.filter_eq_self.mpr fun e he => Recognition.isRecognition_of_mem_events he
    have hclosure (s : Survey) : s.events.filter (·.isRecognition) = [] :=
      List.filter_eq_nil_iff.mpr fun e he => by simp [Survey.not_isRecognition_of_mem_events he]
    rw [checkEvents,List.filter_cons_of_neg (by simp [hreading]),events,List.filter_append,
      hrecognition]
    cases survey text with
    | error e => exact List.append_nil _
    | ok s =>
      rw [hclosure]
      exact List.append_nil _

namespace Program

/-- The events of a check that are written. -/
def log (override? : Option String) (settings : Settings) (traceTokens : Bool) (path : String)
    (contents : Except Files.FileError String) : List Log.Event :=
  (eventsOf settings traceTokens path contents).filter
    (Log.Setup.ofRun override? settings traceTokens).filter.admits

/-- The log of a check stands behind the lines on pieces of the filter that are left out,
and in front of what else there is on standard error. -/
theorem checkOutput_eq_logged (override? : Option String) (settings : Settings)
    (traceTokens : Bool) (path : String) (contents : Except Files.FileError String) :
    checkOutput override? settings traceTokens path contents =
      (verdict path contents).logged
        (String.join (Log.Setup.base override? settings.logFilter).ignored++
          String.join ((log override? settings traceTokens path contents).map Log.Event.line)) := by
  rw [checkOutput,Log.Setup.write,log,Log.Setup.ofRun]
  split <;> rfl

/-- A run that is asked for token reports, and one that is not and has the same settings
otherwise. -/
theorem addsTokens_log (override? : Option String) {settings : Settings} {traceTokens : Bool}
    (h : traceTokens || settings.traceTokens) (path : String)
    (contents : Except Files.FileError String) :
    Log.AddsTokens (recognitionEvents contents)
      (log override? settings traceTokens path contents)
      (log override? ⟨settings.logFilter,false⟩ false path contents) := by
  have hevents : (eventsOf settings traceTokens path contents).map Log.Event.withoutSwitch =
      (eventsOf ⟨settings.logFilter,false⟩ false path contents).map Log.Event.withoutSwitch :=
    rfl
  have hrecognition : (eventsOf settings traceTokens path contents).filter (·.isRecognition) =
      recognitionEvents contents :=
    filter_checkEvents path contents
  have hadds := Log.addsTokens_filter (Log.Setup.base override? settings.logFilter).filter hevents
  rw [hrecognition] at hadds
  rw [log,Log.Setup.ofRun,if_pos h]
  exact hadds

/-- A run that reports tokens next to one that does not, where the same is read at the path of
the file: they end in the same way, all that recognition reports is written by the first one,
and their logs differ in the token reports only. -/
structure ReportsTokens (path : String) (contents : Except Files.FileError String)
    (o o' : Output) : Prop where
  /-- They have the same exit code. -/
  exit : o.exit = o'.exit
  /-- They have the same result. -/
  stdout : o.stdout = o'.stdout
  /-- The same lines stand in front of their logs, and the diagnostic, if there is one, stands
  behind them. -/
  stderr : ∃ ignored log log', Log.AddsTokens (recognitionEvents contents) log log' ∧
    o.stderr = ignored++String.join (log.map Log.Event.line)++(verdict path contents).stderr ∧
    o'.stderr = ignored++String.join (log'.map Log.Event.line)++(verdict path contents).stderr
  /-- Every event of recognition has a line of its own on standard error. -/
  reported : ∀ e ∈ recognitionEvents contents, ∃ words, e.Reports words ∧
    Log.HasLine o.stderr words

/-- Whatever the filters of the environment and of the settings are, a check that is asked for
token reports differs in them only from one that is not. -/
theorem reportsTokens_checkOutput (override? : Option String) {settings : Settings}
    {traceTokens : Bool} (h : traceTokens || settings.traceTokens) (path : String)
    (contents : Except Files.FileError String) :
    ReportsTokens path contents (checkOutput override? settings traceTokens path contents)
      (checkOutput override? ⟨settings.logFilter,false⟩ false path contents) := by
  rw [checkOutput_eq_logged,checkOutput_eq_logged]
  constructor
  case exit => rfl
  case stdout => rfl
  case stderr => exact ⟨_,_,_,addsTokens_log override? h path contents,rfl,rfl⟩
  case reported =>
    intro e he
    obtain ⟨words,hwords,hnewline⟩ := exists_reports he
    have hlog : e ∈ log override? settings traceTokens path contents := by
      rw [←(addsTokens_log override? h path contents).recognition] at he
      exact (List.mem_filter.mp he).1
    exact ⟨words,hwords,Log.hasLine_of_mem hlog hwords hnewline
      (Log.Setup.wholeLines_ignored override? settings.logFilter) _⟩

/-- A run that is asked for token reports, by its option or by its settings, and one that is
asked for them by neither, with the same log filters and the same file to check: all that
recognition reports is written by the first one, whatever the log filters are, and nothing
else sets it apart from the second one. Nor does it matter which answers the system gives that
no file tree does, as long as both runs have the same one for the file. -/
theorem run_reportsTokens {override? : Option String} {t t' : Files.FileTree}
    {arguments arguments' : List String} {file : String} {traceTokens : Bool}
    {directory? directory'? : Option String}
    (h : Command.ofArguments arguments = .analyse (some file) traceTokens directory?)
    (h' : Command.ofArguments arguments' = .analyse (some file) false directory'?)
    (hread : t.readText file = t'.readText file)
    (hasked : traceTokens ||
      (Settings.forDirectory t (some (settingsDirectory directory?))).traceTokens)
    (hsettings : Settings.forDirectory t' (some (settingsDirectory directory'?)) =
      ⟨(Settings.forDirectory t (some (settingsDirectory directory?))).logFilter,false⟩) :
    ReportsTokens file (t.readText file) (run override? t arguments).1
        (run override? t' arguments').1 ∧
      ∀ settings : Settings, traceTokens || settings.traceTokens → ∀ contents,
        ReportsTokens file contents (checkOutput override? settings traceTokens file contents)
          (checkOutput override? ⟨settings.logFilter,false⟩ false file contents) := by
  refine ⟨?_,fun settings hasked => reportsTokens_checkOutput override? hasked file⟩
  rw [run,run,h,h']
  simp only [execute]
  rw [hsettings,←hread]
  exact reportsTokens_checkOutput override? hasked file _

/-- A run with the option, and a check under settings that ask for token reports, while the
environment asks for silence on them or on everything. The run writes one line for each token
and one for the numbers. -/
theorem run_reportsTokens_silenced :
    let t := Files.FileTree.empty.put ⟨["g","work"]⟩ (.file "s : A s ;".toUTF8)
    let o := (run (some "off") t ["--trace-tokens","g"]).1
    let o' := (run (some "off") t ["g"]).1
    (o.exit = o'.exit ∧ o.stdout = o'.stdout ∧
      Log.HasLine o.stderr "TRACE grammar_syntax::parser: lookahead token=1:5 Terminal 'A'") ∧
    (o.stdout = "1 2 1\n" ∧ o'.stderr = "" ∧ o.stderr =
      "TRACE grammar_syntax::parser: lookahead token=1:1 NonTerminal 's'\n"++
      "TRACE grammar_syntax::parser: lookahead token=1:3 Colon ':'\n"++
      "TRACE grammar_syntax::parser: lookahead token=1:5 Terminal 'A'\n"++
      "TRACE grammar_syntax::parser: lookahead token=1:7 NonTerminal 's'\n"++
      "TRACE grammar_syntax::parser: lookahead token=1:9 Semicolon ';'\n"++
      "TRACE grammar_syntax::parser: lookahead token=1:10 EndOfInput '<EOF>'\n"++
      "DEBUG grammar_syntax::parser: grammar recognized"++
        " rule_sets=1 non_terminals=2 terminals=1\n") ∧
    (checkOutput (some "off") ⟨"warn",true⟩ true "g" (.ok "s")).exit =
      (checkOutput (some "off") ⟨"warn",false⟩ false "g" (.ok "s")).exit := by
  intro t o o'
  have hasked : Command.ofArguments ["--trace-tokens","g"] = .analyse (some "g") true none := by
    decide
  have hsilent : Command.ofArguments ["g"] = .analyse (some "g") false none := by decide
  have hread : t.readText "g" = .ok "s : A s ;" := by decide +kernel
  have hsettings : Settings.forDirectory t (some (settingsDirectory none)) =
      ⟨(Settings.forDirectory t (some (settingsDirectory none))).logFilter,false⟩ := by
    decide +kernel
  obtain ⟨hruns,hchecks⟩ :=
    @run_reportsTokens (some "off") t t _ _ _ _ _ _ hasked hsilent rfl rfl hsettings
  have hexamined : (Recognition.ofText "s : A s ;").examined[2]? =
      some ⟨.terminal,"A",⟨4,5⟩,⟨1,5⟩⟩ := by decide +kernel
  have hevent : Log.Event.lookahead ⟨.terminal,"A",⟨4,5⟩,⟨1,5⟩⟩ ∈
      recognitionEvents (t.readText "g") := by
    rw [hread]
    exact List.mem_append_left _ (List.mem_map_of_mem (List.mem_of_getElem? hexamined))
  obtain ⟨_,⟨⟩,hline⟩ := hruns.reported _ hevent
  refine ⟨⟨hruns.exit,hruns.stdout,hline⟩,?_,(hchecks ⟨"warn",true⟩ rfl (.ok "s")).exit⟩
  decide +kernel

end Program

end GrammarCensus
