/-
AnimLint/CommandLine/Parse.lean

Reading a command line.  Arguments are read from left to right and the first
fault ends the reading; but the value of `--source-root` is looked at only when
the next flag, or the end, is reached.

Main definitions: `Command`, `parse`.
-/
import AnimLint.CommandLine.Usage
import AnimLint.Text.Similarity

namespace AnimLint.CommandLine

/-! ### Commands -/

/-- What all commands on files have in common. -/
structure Common where
  sourceRoot : Option String
  verbose : Bool
deriving DecidableEq, Repr

/-- What is to be done. -/
inductive Command
  | check (common : Common)
  | fix (common : Common) (apply : Bool)
  | init
  | serve
deriving DecidableEq, Repr

/-- Holds if more is to be said on the way. -/
def Command.verbose : Command → Bool
  | check common => common.verbose
  | fix common _ => common.verbose
  | _ => false

/-! ### Arguments -/

/-- An argument by its form. -/
inductive Shape
  /-- Two hyphens alone. -/
  | dashes
  | long (name : String) (value : Option String)
  /-- Letters after one hyphen. -/
  | short (letters : List Char)
  | plain
deriving DecidableEq, Repr

/-- Cuts a text at its first equals sign. -/
def cutValue (s : List Char) : List Char × Option (List Char) :=
  match s.dropWhile (· != '=') with
  | [] => (s, none)
  | _ :: value => (s.takeWhile (· != '='), some value)

/-- The form of an argument. -/
def shapeOf (argument : String) : Shape :=
  match argument.toList with
  | ['-', '-'] => .dashes
  | '-' :: '-' :: r =>
    let (name, value) := cutValue r
    .long (String.ofList name) (value.map String.ofList)
  | '-' :: c :: r => .short (c :: r)
  | _ => .plain

/-- The flag of a long name in a scope. -/
def flagOf? (scope : Scope) (name : String) : Option Flag :=
  scope.flags.find? fun flag => flag.long == name

/-- The flag of a letter in a scope. -/
def flagOfLetter? (scope : Scope) (letter : Char) : Option Flag :=
  scope.flags.find? fun flag => flag.short? == some letter

/-- The flag whose name is most like an unknown one. -/
def closestFlag? (scope : Scope) (name : String) : Option Flag :=
  (Text.similar name (scope.flags.map (·.long))).getLast?.bind (flagOf? scope)

/-! ### After a command -/

/-- What the flags of a command have set so far. -/
structure Given where
  sourceRoot : Option String
  verbose : Bool
  apply : Bool
  /-- The flags in the order they were set. -/
  used : List Flag
  /-- A source root that is still to be looked at; its value may be still to
  come. -/
  pending : Option (Option String)
deriving DecidableEq, Repr

namespace Given

def nothing : Given := ⟨none, false, false, [], none⟩

/-- Sets the source root, which needs a value and only one. -/
def setRoot (given : Given) (scope : Scope) (value : Option String) :
    Except UsageError Given :=
  match value with
  | none => .error .missingValue
  | some value =>
    if given.used.contains .sourceRoot then .error (.repeated scope .sourceRoot)
    else if value.isEmpty then .error .missingValue
    else .ok { given with sourceRoot := some value, used := given.used ++ [.sourceRoot] }

/-- Looks at a pending source root. -/
def settle (given : Given) (scope : Scope) : Except UsageError Given :=
  match given.pending with
  | none => .ok given
  | some value => { given with pending := none }.setRoot scope value

/-- Sets a flag without a value. -/
def setFlag (given : Given) (scope : Scope) (flag : Flag) : Except UsageError Given := do
  let given ← given.settle scope
  if flag = .help then .error (.helpAsked scope)
  else if flag = .version then .error .versionAsked
  else if given.used.contains flag then .error (.repeated scope flag)
  else return { given with
    verbose := given.verbose || flag == .verbose
    apply := given.apply || flag == .apply
    used := given.used ++ [flag] }

/-- The flags in use when an unknown one is met. -/
def usedNow (given : Given) (scope : Scope) : List Flag :=
  match given.settle scope with
  | .ok settled => settled.used
  | .error _ => given.used

/-- Flags in use together with one more. -/
def withFlag (used : List Flag) (flag : Flag) : List Flag :=
  if used.contains flag then used else used ++ [flag]

/-- The error for an unknown long flag. -/
def unknownLong (given : Given) (scope : Scope) (name : String) : UsageError :=
  let used := given.usedNow scope
  match closestFlag? scope name with
  | some flag =>
    .unknownArgument scope ("--" ++ name) (some (.flag flag)) (withFlag used flag)
  | none => .unknownArgument scope ("--" ++ name) none used

/-- Reads a long flag. -/
def readLong (given : Given) (scope : Scope) (name : String) (value : Option String) :
    Except UsageError Given :=
  match flagOf? scope name with
  | none => .error (given.unknownLong scope name)
  | some .sourceRoot => do
    let given ← given.settle scope
    match value with
    | some value => given.setRoot scope (some value)
    | none => return { given with pending := some none }
  | some flag =>
    match value with
    | some value => .error (.unneededValue scope flag value (withFlag given.used flag))
    | none => given.setFlag scope flag

/-- Reads the letters of short flags. -/
def readShort (given : Given) (scope : Scope) : List Char → Except UsageError Given
  | [] => .ok given
  | c :: rest =>
    match flagOfLetter? scope c with
    | none => .error (.unknownArgument scope (String.ofList ['-', c]) none [])
    | some flag => do (← given.setFlag scope flag).readShort scope rest

/-- Reads the arguments after a command. -/
def readAll (given : Given) (scope : Scope) (literal : Bool) :
    List String → Except UsageError Given
  | [] => given.settle scope
  | argument :: rest =>
    let unexpected : Except UsageError Given :=
      .error (.unknownArgument scope argument none [])
    if literal then unexpected
    else match shapeOf argument with
      | .dashes => given.readAll scope true rest
      | .long name value => do (← given.readLong scope name value).readAll scope false rest
      | .short letters => do (← given.readShort scope letters).readAll scope false rest
      | .plain =>
        if given.pending = some none then
          { given with pending := some (some argument) }.readAll scope false rest
        else unexpected

end Given

/-- Reads the command after its name. -/
def readCommand (command : Subcommand) (arguments : List String) :
    Except UsageError Command := do
  let given ← Given.nothing.readAll (some command) false arguments
  let common : Common := ⟨given.sourceRoot, given.verbose⟩
  return match command with
    | .check => .check common
    | .fix => .fix common given.apply
    | .serve => .serve
    | _ => .init

/-! ### The whole command line -/

/-- The help page that the words after `help` ask for. -/
def readHelp (scope : Scope) : List String → UsageError
  | [] => .helpAsked scope
  | name :: rest =>
    match scope, Subcommand.ofName? name with
    | none, some command => readHelp (some command) rest
    | scope, _ => .unknownCommand scope name []

/-- The flag of a later command that is most like an unknown one. -/
def closestLater? (name : String) (rest : List String) : Option Suggestion :=
  let candidates := Subcommand.all.filterMap fun command =>
    match closestFlag? (some command) name, rest.idxOf? command.name with
    | some flag, some place => some (place, Suggestion.flagOf command flag)
    | _, _ => none
  (sortBy (fun a b => decide (a.1 ≤ b.1)) candidates).head?.map (·.2)

/-- The answer to a long flag before any command. -/
def topLong (name : String) (value : Option String) (rest : List String) : UsageError :=
  match flagOf? none name, value with
  | some flag, some value => .unneededValue none flag value [flag]
  | some .help, none => .helpAsked none
  | some _, none => .versionAsked
  | none, _ =>
    match closestFlag? none name with
    | some flag => .unknownArgument none ("--" ++ name) (some (.flag flag)) [flag]
    | none => .unknownArgument none ("--" ++ name) (closestLater? name rest) []

/-- The answer to short flags before any command. -/
def topShort (letter : Char) : UsageError :=
  match flagOfLetter? none letter with
  | some .help => .helpAsked none
  | some _ => .versionAsked
  | none => .unknownArgument none (String.ofList ['-', letter]) none []

/-- The answer to a word that is no command. -/
def topPlain (literal : Bool) (word : String) : UsageError :=
  if literal && (Subcommand.ofName? word).isSome then .afterDashes word
  else .unknownCommand none word (Text.similar word (Subcommand.all.map (·.name)))

/-- Reads a command line, from after a `--` on if `literal` is set; it may be
empty. -/
def parseFrom (literal : Bool) : List String → Except UsageError (Option Command)
  | [] => .ok none
  | argument :: rest =>
    if literal then .error (topPlain true argument)
    else match Subcommand.ofName? argument with
      | some .help => .error (readHelp none rest)
      | some command => (readCommand command rest).map some
      | none =>
        match shapeOf argument with
        | .dashes => parseFrom true rest
        | .long name value => .error (topLong name value rest)
        | .short (letter :: _) => .error (topShort letter)
        | _ => .error (topPlain false argument)

/-- Reads a command line. -/
def parse (arguments : List String) : Except UsageError (Option Command) :=
  parseFrom false arguments

end AnimLint.CommandLine
