/-
AnimLint/CommandLine/Usage.lean

What a command line may hold, what the help pages say about it, and how a
command line that makes no sense is answered.

Main definitions: `Flag`, `Subcommand`, `Scope`, `helpText`, `UsageError`,
`UsageError.message`.
-/

namespace AnimLint.CommandLine

/-! ### Flags and commands -/

/-- The flags of all commands. -/
inductive Flag
  | sourceRoot
  | verbose
  | apply
  | help
  | version
deriving DecidableEq, Repr

namespace Flag

/-- The long name of a flag. -/
def long : Flag → String
  | sourceRoot => "source-root"
  | verbose => "verbose"
  | apply => "apply"
  | help => "help"
  | version => "version"

/-- The short name of a flag. -/
def short? : Flag → Option Char
  | verbose => some 'v'
  | help => some 'h'
  | version => some 'V'
  | _ => none

/-- A flag as messages show it. -/
def shown (flag : Flag) : String :=
  match flag with
  | sourceRoot => "--source-root <SOURCE_ROOT>"
  | _ => "--" ++ flag.long

end Flag

/-- The words that choose a command. -/
inductive Subcommand
  | check
  | fix
  | init
  | serve
  | help
deriving DecidableEq, Repr

namespace Subcommand

def name : Subcommand → String
  | check => "check"
  | fix => "fix"
  | init => "init"
  | serve => "serve"
  | help => "help"

/-- All commands in the order of the help page. -/
def all : List Subcommand := [check, fix, init, serve, help]

/-- The command of a name. -/
def ofName? (name : String) : Option Subcommand := all.find? fun c => c.name == name

/-- The flags of a command. -/
def flags : Subcommand → List Flag
  | check => [.sourceRoot, .verbose, .help]
  | fix => [.sourceRoot, .verbose, .apply, .help]
  | init => [.help]
  | serve => [.help]
  | help => []

end Subcommand

/-- Where on a command line a flag stands: before any command or after one. -/
abbrev Scope := Option Subcommand

/-- The flags of a scope. -/
def Scope.flags : Scope → List Flag
  | none => [.help, .version]
  | some command => command.flags

/-! ### Help -/

/-- The name and the version of the program. -/
def versionText : String := "tweenlint 0.1.0\n"

/-- The program and the command of a scope. -/
def Scope.program : Scope → String
  | none => "tweenlint"
  | some command => "tweenlint " ++ command.name

/-- The form of a command line in a scope; with flags that are in use, of one
that has them. -/
def Scope.usage (scope : Scope) (used : List Flag) : String :=
  match used with
  | [] =>
    scope.program ++ match scope with
      | none => " [COMMAND]"
      | some .check => " [OPTIONS]"
      | some .fix => " [OPTIONS]"
      | some .help => " [COMMAND]..."
      | some _ => ""
  | _ => scope.program ++ String.join (used.map fun flag => " " ++ flag.shown)

/-- What a scope is for. -/
def Scope.about : Scope → String
  | none =>
    "A fast CLI linter that keeps GSAP-style animation calls compact around their config objects"
  | some .check => "Report multi-line text around the config object of animation calls"
  | some .fix => "Collapse multi-line text around config objects onto one line"
  | some .init => "Initialize a new .tweenlintrc.json configuration file"
  | some .serve => "Start MCP server for AI coding agents"
  | some .help => "Print this message or the help of the given subcommand(s)"

/-- A name with its explanation in a column that starts after so many
characters. -/
def helpRow (width : Nat) (name explanation : String) : String :=
  "  " ++ name ++ String.ofList (List.replicate (width - name.length) ' ') ++
  explanation ++ "\n"

/-- The rows of the flags that commands on files have. -/
def commonRows : String :=
  helpRow 31 "    --source-root <SOURCE_ROOT>"
    "  Directory to search for the config file and scan (default: current directory)" ++
  helpRow 31 "-v, --verbose" "  Enable verbose output"

/-- The parts of a help page after the usage. -/
def Scope.helpRows : Scope → String
  | none =>
    "Commands:\n" ++
      String.join (Subcommand.all.map fun c => helpRow 7 c.name (Scope.about (some c))) ++
      "\nOptions:\n" ++ helpRow 15 "-h, --help" "Print help" ++
      helpRow 15 "-V, --version" "Print version"
  | some .check => "Options:\n" ++ commonRows ++ helpRow 31 "-h, --help" "  Print help"
  | some .fix =>
    "Options:\n" ++ commonRows ++
      helpRow 31 "    --apply" "  Actually rewrite files (default is dry-run)" ++
      helpRow 31 "-h, --help" "  Print help"
  | some .help => "Arguments:\n" ++
    helpRow 12 "[COMMAND]..." "  Print help for the subcommand(s)"
  | some _ => "Options:\n" ++ helpRow 12 "-h, --help" "Print help"

/-- The help page of a scope. -/
def helpText (scope : Scope) : String :=
  scope.about ++ "\n\nUsage: " ++ scope.usage [] ++ "\n\n" ++ scope.helpRows

/-! ### Errors -/

/-- What to try in place of an unknown flag. -/
inductive Suggestion
  | flag (flag : Flag)
  /-- The flag of a command that comes later on the command line. -/
  | flagOf (command : Subcommand) (flag : Flag)
deriving DecidableEq, Repr

/-- Why a command line is answered at once. -/
inductive UsageError
  | helpAsked (scope : Scope)
  | versionAsked
  | unknownArgument (scope : Scope) (argument : String) (suggestion : Option Suggestion)
      (used : List Flag)
  /-- The name of a command after `--`. -/
  | afterDashes (command : String)
  | unknownCommand (scope : Scope) (name : String) (alike : List String)
  | missingValue
  | repeated (scope : Scope) (flag : Flag)
  | unneededValue (scope : Scope) (flag : Flag) (value : String) (used : List Flag)
deriving DecidableEq, Repr

/-- The kinds of answers. -/
inductive ErrorKind
  | displayHelp
  | displayVersion
  | unknownArgument
  | invalidSubcommand
  | invalidValue
  | argumentConflict
  | tooManyValues
deriving DecidableEq, Repr

namespace UsageError

/-- The kind of an answer. -/
def kind : UsageError → ErrorKind
  | helpAsked _ => .displayHelp
  | versionAsked => .displayVersion
  | unknownArgument .. => .unknownArgument
  | afterDashes _ => .unknownArgument
  | unknownCommand .. => .invalidSubcommand
  | missingValue => .invalidValue
  | repeated .. => .argumentConflict
  | unneededValue .. => .tooManyValues

/-- Holds of the answers that were asked for. -/
def isAsked : UsageError → Bool
  | helpAsked _ => true
  | versionAsked => true
  | _ => false

/-- The exit code of an answer. -/
def code (e : UsageError) : Nat := if e.isAsked then 0 else 2

/-- A complaint with a tip and the usage, where there are any. -/
def complaint (what : String) (tip usage : Option String) : String :=
  "error: " ++ what ++ "\n\n" ++
    (match tip with
      | some tip => "  tip: " ++ tip ++ "\n\n"
      | none => "") ++
    (match usage with
      | some usage => "Usage: " ++ usage ++ "\n\n"
      | none => "") ++
    "For more information, try '--help'.\n"

/-- The words for a suggestion. -/
def suggestionTip : Suggestion → String
  | .flag flag => "a similar argument exists: '--" ++ flag.long ++ "'"
  | .flagOf command flag => "'" ++ command.name ++ " --" ++ flag.long ++ "' exists"

/-- The words for names that are alike. -/
def alikeTip : List String → Option String
  | [] => none
  | [name] => some ("a similar subcommand exists: '" ++ name ++ "'")
  | names =>
    some ("some similar subcommands exist: " ++
      String.intercalate ", " (names.map fun name => "'" ++ name ++ "'"))

/-- The text of an answer. -/
def message : UsageError → String
  | helpAsked scope => helpText scope
  | versionAsked => versionText
  | unknownArgument scope argument suggestion used =>
    complaint ("unexpected argument '" ++ argument ++ "' found")
      (suggestion.map suggestionTip)
      (scope.usage used)
  | afterDashes command =>
    complaint ("unexpected argument '" ++ command ++ "' found")
      ("subcommand '" ++ command ++ "' exists; to use it, remove the '--' before it")
      (Scope.usage none [])
  | unknownCommand scope name alike =>
    complaint ("unrecognized subcommand '" ++ name ++ "'") (alikeTip alike)
      (scope.usage [])
  | missingValue =>
    complaint ("a value is required for '" ++ Flag.sourceRoot.shown ++
      "' but none was supplied")
      none none
  | repeated scope flag =>
    complaint ("the argument '" ++ flag.shown ++ "' cannot be used multiple times") none
      (scope.usage [])
  | unneededValue scope flag value used =>
    complaint ("unexpected value '" ++ value ++ "' for '" ++ flag.shown ++
      "' found; no more were expected") none (scope.usage used)

end UsageError

end AnimLint.CommandLine
