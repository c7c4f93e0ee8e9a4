import GrammarCensus.Census
import GrammarCensus.Log.Level
import GrammarCensus.Token.Basic

/-!
# Log events

What an analysis reports of itself while it runs. Every event has a level, a
target that names the part it comes from, a message and some fields. A filter
looks at the level and the target only. The main statements say what the line of
an event holds, and that it ends in a newline.
-/

namespace GrammarCensus.Log

/-- Something that an analysis reports of itself. -/
inductive Event
  /-- Logging is set up, under these settings. -/
  | initialised (logFilter : String) (traceTokens : Bool)
  /-- A specification is about to be read. -/
  | reading (path : String)
  /-- A token comes next. -/
  | lookahead (token : Token)
  /-- A specification has been recognized, with these numbers. -/
  | recognized (ruleSets nonTerminals terminals : Nat)
  /-- Some used names have no definition. -/
  | undefined (names : NameSet)
  /-- Some defined names have no use. -/
  | unused (names : NameSet)
  /-- The grammar is closed, with this census. -/
  | closed (census : Census)

namespace Event

/-- How urgent an event is. -/
def level : Event → Level
  | .reading _ => .info
  | .lookahead _ => .trace
  | _ => .debug

/-- The target of everything that recognition reports. -/
def recognitionTarget : String := "grammar_syntax::parser"

/-- The target of everything that the check for closure reports. -/
def closureTarget : String := "grammar_semantic::validator"

/-- The part that an event comes from. -/
def target : Event → String
  | .initialised _ _ => "grammar_stats::logging"
  | .reading _ => "grammar_stats::analysis"
  | .lookahead _ => recognitionTarget
  | .recognized _ _ _ => recognitionTarget
  | .undefined _ => closureTarget
  | .unused _ => closureTarget
  | .closed _ => closureTarget

/-- The message of an event. -/
def message : Event → String
  | .initialised _ _ => "logging initialised"
  | .reading _ => "reading grammar"
  | .lookahead _ => "lookahead"
  | .recognized _ _ _ => "grammar recognized"
  | .undefined _ => "grammar uses undefined non-terminals"
  | .unused _ => "grammar defines unused non-terminals"
  | .closed _ => "grammar is valid"

/-- The fields of an event, each with its name. Values are written as they are,
control characters included. -/
def fields : Event → List (String × String)
  | .initialised logFilter traceTokens =>
    [("log_filter",logFilter),("trace_tokens",if traceTokens then "true" else "false")]
  | .reading path => [("path",path)]
  | .lookahead token => [("token",token.render)]
  | .recognized ruleSets nonTerminals terminals =>
    [("rule_sets",ruleSets.repr),("non_terminals",nonTerminals.repr),
      ("terminals",terminals.repr)]
  | .undefined names => [("undefined",names.render)]
  | .unused names => [("unused",names.render)]
  | .closed census => [("stats",census.render)]

/-- The line of an event, with the newline that ends it. -/
def line (e : Event) : String :=
  e.level.label++" "++e.target++": "++e.message++
    String.join (e.fields.map fun (name,value) => " "++name++"="++value)++"\n"

/-- The line of an event that has one field. -/
theorem line_of_fields_eq {e : Event} {name value : String} (h : e.fields = [(name,value)]) :
    e.line = e.level.label++" "++e.target++": "++e.message++" "++name++"="++value++"\n" := by
  apply String.toList_inj.mp
  simp [line,h]

/-- The line of a token that comes next. -/
theorem line_lookahead (token : Token) : (lookahead token).line =
    "TRACE grammar_syntax::parser: lookahead token="++token.render++"\n" := by
  have hfields : (lookahead token).fields = [("token",token.render)] := rfl
  apply String.toList_inj.mp
  simp [line_of_fields_eq hfields,level,Level.label,target,recognitionTarget,message]

/-- The line of a specification that has been recognized. -/
theorem line_recognized (ruleSets nonTerminals terminals : Nat) :
    (recognized ruleSets nonTerminals terminals).line =
      "DEBUG grammar_syntax::parser: grammar recognized rule_sets="++ruleSets.repr++
        " non_terminals="++nonTerminals.repr++" terminals="++terminals.repr++"\n" := by
  apply String.toList_inj.mp
  simp [line,level,Level.label,target,recognitionTarget,message,fields,-Nat.toList_repr]

/-- Every line ends in a newline. -/
theorem getLast?_line (e : Event) : e.line.toList.getLast? = some '\n' := by
  rw [line,String.toList_append,List.getLast?_append]
  rfl

end Event

end GrammarCensus.Log
