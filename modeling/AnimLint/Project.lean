/-
AnimLint/Project.lean

A project: the settings in force at its root, the files that a survey finds
there, and what a check of these files reports.  The settings are those of the
nearest directory that has a settings file, going up from the root; the search
ends below a directory that holds a repository.

Main definitions: `findSettings`, `loadSettings`, `Project.load`,
`Project.analyze`.
-/
import AnimLint.Check
import AnimLint.Settings
import AnimLint.Survey

namespace AnimLint

open Files

/-- The name of a settings file. -/
def settingsFile : String := ".tweenlintrc.json"

/-! ### Settings -/

/-- A directory and those above it, as far as its path tells; at most so many of
them. -/
def upwards : Nat → String → List String
  | 0, path => [path]
  | n + 1, path =>
    match parent? path with
    | none => [path]
    | some up => path :: upwards n up

/-- The settings file of the first of some directories that has one, unless a
repository comes first. -/
def firstSettings (fs : FileSystem) : List String → Option String
  | [] => none
  | directory :: rest =>
    if fs.has (join directory settingsFile) then some (join directory settingsFile)
    else if fs.has (join directory ".git") then none
    else firstSettings fs rest

/-- The settings file that holds for a directory. -/
def findSettings (fs : FileSystem) (directory : String) : Option String :=
  firstSettings fs (upwards directory.length directory)

/-- Why the settings of a project could not be had. -/
inductive LoadError
  | unreadable (path : String) (error : AccessError)
  | unparsable (path : String) (text : List Char) (fault : Json.Fault)
  | invalid (reason : Settings.Invalid)

/-- The words for an error. -/
def LoadError.message : LoadError → String
  | unreadable path e => "Failed to read config file: " ++ quoted path.toList ++
    ": " ++ e.message
  | unparsable path text fault =>
    "Failed to parse config file: " ++ quoted path.toList ++ ": " ++ fault.message text
  | invalid reason => reason.message

/-- Settings, and whether a file holds them. -/
structure Loaded where
  settings : Settings
  fromFile : Bool
deriving DecidableEq, Repr

/-- The settings in a file. -/
def readSettings (fs : FileSystem) (path : String) : Except LoadError Settings :=
  match fs.readText path with
  | .error e => .error (.unreadable path e)
  | .ok text =>
    match Settings.read text with
    | .error fault => .error (.unparsable path text fault)
    | .ok settings =>
      match settings.invalid? with
      | some reason => .error (.invalid reason)
      | none => .ok settings

/-- The settings that hold for a directory. -/
def loadSettings (fs : FileSystem) (directory : String) : Except LoadError Loaded :=
  match findSettings fs directory with
  | none => .ok ⟨.default, false⟩
  | some path =>
    match readSettings fs path with
    | .error e => .error e
    | .ok settings => .ok ⟨settings, true⟩

/-! ### Projects -/

/-- A project at a root. -/
structure Project where
  root : String
  settings : Settings
  fromFile : Bool
  /-- The files to check, in ascending order. -/
  files : List String
  verbose : Bool

namespace Project

/-- What to survey in a project. -/
def request (root : String) (settings : Settings) : SurveyRequest where
  base := root
  includes := settings.includes
  ignores := settings.ignores
  ignoreTestFiles := settings.ignoreTestFiles

/-- What is said about the settings and the survey of a project. -/
def loadText (color verbose : Bool) (loaded : Loaded) (found : Survey) : String :=
  let note :=
    if verbose && !loaded.fromFile then
      "Note: No " ++ settingsFile ++ " found, using default configuration\n"
    else ""
  let skipped :=
    if 0 < found.skipped then
      warningLine color (s!"{found.skipped} path(s) skipped due to access errors" ++
        if verbose then "" else " (use -v for details)")
    else ""
  note ++ found.warningText color verbose ++ skipped

/-- Loads the settings of a project and surveys its files; the text tells what
went wrong. -/
def load (fs : FileSystem) (color : Bool) (root : Option String) (verbose : Bool) :
    Except LoadError (Project × String) :=
  let root := root.getD "."
  match loadSettings fs root with
  | .error e => .error e
  | .ok loaded =>
    let found := survey fs (request root loaded.settings)
    .ok (⟨root, loaded.settings, loaded.fromFile, found.files, verbose⟩,
      loadText color verbose loaded found)

end Project

/-! ### Analysis -/

/-- What a check of the files of a project has found. -/
structure Analysis where
  findings : FindingMap
  /-- The files that could not be read or parsed. -/
  fileErrors : List FileError

/-- The findings in a file, or why it has none. -/
def checkFile (fs : FileSystem) (visit : Visit) (target : Target) (file : String) :
    Except String (List Finding) :=
  match fs.readText file with
  | .error e => .error ("Failed to read file: " ++ e.message)
  | .ok text =>
    match findings target file text visit with
    | .error e => .error e.message
    | .ok found => .ok found

/-- The findings in files; a file without any is not listed. -/
def checkFiles (fs : FileSystem) (visit : Visit) (target : Target) :
    List String → Analysis
  | [] => ⟨[], []⟩
  | file :: files =>
    let rest := checkFiles fs visit target files
    match checkFile fs visit target file with
    | .error e => { rest with fileErrors := ⟨file, e⟩ :: rest.fileErrors }
    | .ok [] => rest
    | .ok found => { rest with findings := rest.findings.insert file found }

/-- A file that could not be used, as a warning tells it. -/
def FileError.warning (color : Bool) (e : FileError) : String :=
  warningLine color (e.file ++ " - " ++ e.error)

namespace Project

/-- Checks the files of a project. -/
def analyze (fs : FileSystem) (project : Project) (visit : Visit := .inText) : Analysis :=
  checkFiles fs visit project.settings.target project.files

/-- What is said about the files that could not be checked. -/
def analysisText (color : Bool) (project : Project) (analysis : Analysis) : String :=
  if project.verbose then String.join (analysis.fileErrors.map (·.warning color)) else ""

end Project

/-- All problems that an analysis has found: the findings in order of place,
then the files that could not be checked. -/
def Analysis.problems (analysis : Analysis) : List Problem :=
  analysis.findings.findings.map .finding ++ analysis.fileErrors.map .fileError

end AnimLint
