import GrammarCensus.CommandLine.Help

/-!
# Commands

What the arguments of a call ask for. Arguments are read from left to right,
and the first one that is wrong, or that asks for help or the version, decides
at once. The names of commands count as such only in the first place; anywhere
else they are files. After two dashes on their own no argument is an option.
-/

namespace GrammarCensus.CommandLine

/-- What a call asks for. -/
inductive Command
  /-- To check a file, if one is given. -/
  | analyse (file? : Option String) (traceTokens : Bool) (directory? : Option String)
  /-- To print the tokens of a file. -/
  | tokens (file : String)
  /-- To write the default settings into a directory. -/
  | init (directory? : Option String)
  /-- To print help. -/
  | help (topic : Topic)
  /-- To print the version. -/
  | version
  /-- Nothing that makes sense. -/
  | invalid
deriving Repr, DecidableEq, Inhabited

/-- What an argument looks like. -/
inductive Word
  /-- Two dashes on their own. -/
  | escape
  /-- Two dashes and a name, perhaps with an equals sign and a value. -/
  | long (name : String) (value? : Option String)
  /-- One dash and a letter, perhaps with more behind it. -/
  | short (letter : Char)
  /-- Anything else, one dash on its own among it. -/
  | plain (text : String)
deriving Repr, DecidableEq

/-- The look of an argument. -/
def Word.ofArgument (argument : String) : Word :=
  match argument.toList with
  | ['-','-'] => .escape
  | '-' :: '-' :: rest =>
    .long (String.ofList (rest.takeWhile (· ≠ '=')))
      (match rest.dropWhile (· ≠ '=') with
      | [] => none
      | _::value => some (String.ofList value))
  | '-' :: letter :: _ => .short letter
  | _ => .plain argument

/-- The file and the options of a check, as far as they have been given. -/
structure Options where
  /-- The file to check. -/
  file? : Option String
  /-- Whether every token is to be reported. -/
  traceTokens : Bool
  /-- The directory of the settings. -/
  directory? : Option String
deriving Repr, DecidableEq, Inhabited

namespace Options

/-- Before the first argument. -/
def none : Options :=
  ⟨.none,false,.none⟩

/-- The command for what has been given. -/
def command (o : Options) : Command :=
  .analyse o.file? o.traceTokens o.directory?

/-- Adds the file. There may be only one, and its path is not empty. -/
def addFile? (o : Options) (file : String) : Option Options :=
  if file = "" ∨ o.file?.isSome then .none
  else some ⟨some file,o.traceTokens,o.directory?⟩

/-- Asks for reports of tokens, which can be done once. -/
def addTrace? (o : Options) : Option Options :=
  if o.traceTokens then .none else some ⟨o.file?,true,o.directory?⟩

/-- Adds the directory of the settings. There may be only one, and its path is
not empty. -/
def addDirectory? (o : Options) (directory : String) : Option Options :=
  if directory = "" ∨ o.directory?.isSome then .none
  else some ⟨o.file?,o.traceTokens,some directory⟩

/-- Reads arguments of which none is an option. -/
def readFiles (o : Options) : List String → Command
  | [] => o.command
  | argument::rest =>
    match o.addFile? argument with
    | .none => .invalid
    | some o => o.readFiles rest

/-- Whether an argument can be the value of the option before it. -/
def isValue (argument : String) : Bool :=
  argument = "-" || argument.toList.head? ≠ some '-'

/-- Reads the arguments of a check. -/
def read (o : Options) : List String → Command
  | [] => o.command
  | argument::rest =>
    match Word.ofArgument argument with
    | .escape => o.readFiles rest
    | .plain file =>
      match o.addFile? file with
      | .none => .invalid
      | some o => o.read rest
    | .short 'h' => .help .program
    | .short 'V' => .version
    | .short _ => .invalid
    | .long "help" .none => .help .program
    | .long "version" .none => .version
    | .long "trace-tokens" .none =>
      match o.addTrace? with
      | .none => .invalid
      | some o => o.read rest
    | .long "config-dir" (some directory) =>
      match o.addDirectory? directory with
      | .none => .invalid
      | some o => o.read rest
    | .long "config-dir" .none =>
      match rest with
      | [] => .invalid
      | directory::rest =>
        if isValue directory then
          match o.addDirectory? directory with
          | .none => .invalid
          | some o => o.read rest
        else .invalid
    | .long _ _ => .invalid

end Options

/-- Reads operands of a command that takes at most one, where no argument is an
option. -/
def readOperands (build : Option String → Command) (operand? : Option String) :
    List String → Command
  | [] => build operand?
  | argument::rest =>
    if argument = "" ∨ operand?.isSome then .invalid
    else readOperands build (some argument) rest

/-- Reads the arguments of a command that takes at most one operand and no
option but the one for help. -/
def readCommand (topic : Topic) (build : Option String → Command)
    (operand? : Option String) : List String → Command
  | [] => build operand?
  | argument::rest =>
    match Word.ofArgument argument with
    | .escape => readOperands build operand? rest
    | .plain operand =>
      if operand = "" ∨ operand?.isSome then .invalid
      else readCommand topic build (some operand) rest
    | .short 'h' => .help topic
    | .long "help" none => .help topic
    | _ => .invalid

/-- Reads the arguments of the command for help, which are names of commands. -/
def readTopic : List String → Command
  | [] => .help .program
  | ["init"] => .help .init
  | ["tokens"] => .help .tokens
  | ["help"] => .help .help
  | _ => .invalid

/-- The command that prints tokens, which needs a file. -/
def tokensOf : Option String → Command
  | none => .invalid
  | some file => .tokens file

/-- The command that the arguments of a call ask for. -/
def Command.ofArguments : List String → Command
  | "init"::rest => readCommand .init .init none rest
  | "tokens"::rest => readCommand .tokens tokensOf none rest
  | "help"::rest => readTopic rest
  | arguments => Options.none.read arguments

end GrammarCensus.CommandLine
