/-
AnimLint/Settings.lean

The settings of a project: which files are looked at and which calls.  They are
read from a JSON object, where each field may be left out, or from a list of the
values in order, where fields at the end may be left out; unknown fields are
passed over.

Main definitions: `Settings`, `Settings.read`, `Settings.invalid?`,
`Settings.toJson`.
-/
import AnimLint.Glob.Pattern
import AnimLint.Json.Reader
import AnimLint.Target

namespace AnimLint

/-- The settings of a project. -/
structure Settings where
  /-- The directories to look in; without any, the project as a whole. -/
  includes : List String
  /-- The paths to leave out. -/
  ignores : List String
  ignoreTestFiles : Bool
  keywords : List String
  excludes : List String
deriving DecidableEq, Repr

namespace Settings

/-- The settings of a project that has none of its own. -/
def default : Settings where
  includes := []
  ignores := ["**/node_modules/**", "**/dist/**"]
  ignoreTestFiles := false
  keywords := Target.default.keywords
  excludes := Target.default.excludes

instance : Inhabited Settings := ⟨default⟩

/-- The calls that the settings single out. -/
def target (settings : Settings) : Target := ⟨settings.keywords, settings.excludes⟩

/-! ### Reading -/

/-- The fields of the settings. -/
inductive Field
  | includes
  | ignores
  | ignoreTestFiles
  | keywords
  | excludes
deriving DecidableEq, Repr

/-- The name of a field. -/
def Field.name : Field → String
  | includes => "includes"
  | ignores => "ignores"
  | ignoreTestFiles => "ignoreTestFiles"
  | keywords => "keywords"
  | excludes => "excludes"

/-- The fields in order. -/
def Field.all : List Field := [includes, ignores, ignoreTestFiles, keywords, excludes]

/-- The field of a name. -/
def Field.ofName? (name : String) : Option Field :=
  Field.all.find? fun f => f.name == name

/-- Reads the value of a field. -/
def readField (settings : Settings) (field : Field) : Json.Reader Settings := fun s =>
  let texts (set : List String → Settings) : Except Json.Fault (Settings × List Char) :=
    (Json.readList Json.readString s).map fun (items, rest) => (set items, rest)
  match field with
  | .includes => texts fun items => { settings with includes := items }
  | .ignores => texts fun items => { settings with ignores := items }
  | .keywords => texts fun items => { settings with keywords := items }
  | .excludes => texts fun items => { settings with excludes := items }
  | .ignoreTestFiles =>
    (Json.readBool s).map fun (b, rest) => ({ settings with ignoreTestFiles := b }, rest)

/-- Settings of which some fields are set already. -/
structure Draft where
  settings : Settings
  seen : List Field

/-- The fault of a field that is set twice, which is noticed before its value is
read. -/
def duplicate (field : Field) (s : List Char) : Json.Fault :=
  let rest := Json.skipBlanks s
  ⟨.duplicate field.name, rest, if rest.head? == some '\x7d' then 1 else 0⟩

/-- Reads the value of the field with a key; other keys are passed over with
their values. -/
def Draft.readKey (draft : Draft) (key : List Char) : Json.Reader Draft := fun s =>
  match Field.ofName? (String.ofList key) with
  | none => do
    let rest ← Json.skipValue (← Json.readColon s)
    return (draft, rest)
  | some field =>
    if draft.seen.contains field then .error (duplicate field s)
    else do
      let (settings, rest) ← readField draft.settings field (← Json.readColon s)
      return (⟨settings, field :: draft.seen⟩, rest)

/-- Reads the values of fields in order, as far as there are any. -/
def readInOrder (more : Bool) (settings : Settings) : List Field → Json.Reader Settings
  | [], s => .ok (settings, s)
  | field :: fields, s => do
    let (another, s) ← Json.nextItem? more s
    if another then
      let (settings, s) ← readField settings field s
      readInOrder true settings fields s
    else return (settings, s)

/-- Reads settings, which the text may go on after. -/
def readFrom : Json.Reader Settings := fun s =>
  match Json.skipBlanks s with
  | '\x7b' :: r => do
    let (draft, rest) ← Json.readFields Draft.readKey (r.length + 1) false ⟨default, []⟩ r
    return (draft.settings, rest)
  | '[' :: r => do
    let (settings, rest) ← readInOrder false default Field.all r
    return (settings, ← Json.closeList rest)
  | s => .error (Json.mismatch "struct Config" s)

/-- Reads settings from the whole of a text. -/
def read (text : List Char) : Except Json.Fault Settings := do
  let (settings, rest) ← readFrom text
  match Json.skipBlanks rest with
  | [] => return settings
  | rest => .error ⟨.trailingCharacters, rest, 1⟩

/-! ### Writing -/

/-- Settings as a value, with all fields. -/
def toJson (settings : Settings) : Json :=
  .object [
    (Field.includes.name, .strings settings.includes),
    (Field.ignores.name, .strings settings.ignores),
    (Field.ignoreTestFiles.name, .bool settings.ignoreTestFiles),
    (Field.keywords.name, .strings settings.keywords),
    (Field.excludes.name, .strings settings.excludes)]

/-! ### Validation -/

/-- What is wrong with settings that could be read. -/
inductive Invalid
  | glob (field : Field) (pattern : String) (error : Glob.PatternError)
  | noKeywords
  | blankKeyword
deriving DecidableEq, Repr

/-- The words for what is wrong. -/
def Invalid.message : Invalid → String
  | glob field pattern error =>
    "Invalid glob pattern in '" ++ field.name ++ "': \"" ++ pattern ++ "\": " ++ error.message
  | noKeywords => "'keywords' must contain at least one callee suffix"
  | blankKeyword => "'keywords' must not contain empty entries"

/-- The first pattern of a field that is none. -/
def invalidGlob? (field : Field) (patterns : List String) : Option Invalid :=
  patterns.findSome? fun pattern =>
    match Glob.Pattern.parse pattern with
    | .error e => some (.glob field pattern e)
    | .ok _ => none

/-- What is wrong with settings, if anything is: every ignored path has to be a
pattern, and every directory that looks like one; and a keyword has to show,
since every callee ends in an empty one. -/
def invalid? (settings : Settings) : Option Invalid :=
  (invalidGlob? .ignores settings.ignores).orElse fun _ =>
    (invalidGlob? .includes (settings.includes.filter Glob.isPattern)).orElse fun _ =>
      if settings.keywords.isEmpty then some .noKeywords
      else if settings.keywords.any fun k =>
        k.toList.all Text.isBlank then some .blankKeyword
      else none

/-- The default settings as text. -/
def defaultText : String := default.toJson.render

end Settings

end AnimLint
