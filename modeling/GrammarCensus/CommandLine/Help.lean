/-!
# Help texts

What the program prints about itself.
-/

namespace GrammarCensus.CommandLine

/-- What help can be asked for. -/
inductive Topic
  /-- The program as a whole. -/
  | program
  /-- The command that writes the default settings. -/
  | init
  /-- The command that prints tokens. -/
  | tokens
  /-- The command that prints help. -/
  | help
deriving Repr, DecidableEq, Inhabited

/-- The given lines, each with the newline that ends it. -/
def ofLines (lines : List String) : String :=
  String.join (lines.map (·++"\n"))

/-- The two ways to call the program. -/
def usage : List String :=
  ["Usage: grammar_stats [OPTIONS] [FILE]",
    "       grammar_stats <COMMAND>"]

/-- The name and number of this version. -/
def versionText : String :=
  ofLines ["grammar_stats 0.1.0"]

/-- The help on a topic. -/
def helpText : Topic → String
  | .program => ofLines (usage++[
    "",
    "Commands:",
    "  init    Creates a grammar_stats.toml on the current working directory or on the "++
      "specified path",
    "  tokens  Prints the tokens of a grammar specification, one per line",
    "  help    Print this message or the help of the given subcommand(s)",
    "",
    "Arguments:",
    "  [FILE]  The grammar specification to check. Prints the number of rule-sets, "++
      "non-terminal occurrences and terminal occurrences",
    "",
    "Options:",
    "      --trace-tokens             Log every token the recognizer consumes",
    "      --config-dir <CONFIG_DIR>  Directory holding grammar_stats.toml, defaults to "++
      "the current directory",
    "  -h, --help                     Print help",
    "  -V, --version                  Print version"])
  | .init => ofLines [
    "Creates a grammar_stats.toml on the current working directory or on the specified path",
    "",
    "Usage: grammar_stats init [PATH]",
    "",
    "Arguments:",
    "  [PATH]  The path to create the grammar_stats.toml file in",
    "",
    "Options:",
    "  -h, --help  Print help"]
  | .tokens => ofLines [
    "Prints the tokens of a grammar specification, one per line",
    "",
    "Usage: grammar_stats tokens <FILE>",
    "",
    "Arguments:",
    "  <FILE>  The grammar specification to scan",
    "",
    "Options:",
    "  -h, --help  Print help"]
  | .help => ofLines [
    "Print this message or the help of the given subcommand(s)",
    "",
    "Usage: grammar_stats help [COMMAND]...",
    "",
    "Arguments:",
    "  [COMMAND]...  Print help for the subcommand(s)"]

end GrammarCensus.CommandLine
