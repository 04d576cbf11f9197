/-
AnimLint/Survey.lean

Which files of a project are looked at.  Every directory that is included is
walked, or the base directory if none is named; ignored paths are left out with
all that lies below them.  An entry with a `*` or a `?` is a pattern, any other
a path seen from the base directory.

Main definitions: `Ignores`, `scanRoots`, `survey`.
-/
import AnimLint.Display.Report
import AnimLint.Files.Walk
import AnimLint.Glob.Expand

namespace AnimLint

open Files

/-- The extensions of the files that are looked at. -/
def extensions : List String := ["js", "jsx", "mjs", "cjs", "ts", "tsx", "mts", "cts"]

/-- The patterns of test files. -/
def testPatterns : List String :=
  ["**/*.test.js", "**/*.test.jsx", "**/*.test.ts", "**/*.test.tsx",
   "**/*.spec.js", "**/*.spec.jsx", "**/*.spec.ts", "**/*.spec.tsx", "**/__tests__/**"]

/-- Holds of the files that are looked at. -/
def isSource (path : String) : Bool :=
  match extension? path with
  | some e => extensions.contains e
  | none => false

/-! ### What is asked for -/

/-- What to survey. -/
structure SurveyRequest where
  /-- The directory that other paths are seen from. -/
  base : String
  includes : List String
  ignores : List String
  ignoreTestFiles : Bool

/-- Something that went wrong on the way; the survey goes on without it. -/
inductive SurveyWarning
  | badIgnore (pattern : String) (error : Glob.PatternError)
  | missingInclude (path : String)
  | badInclude (pattern : String) (error : Glob.PatternError)
  | unreachable (error : Unreachable)
deriving DecidableEq, Repr

/-- The words for a warning. -/
def SurveyWarning.message : SurveyWarning → String
  | badIgnore pattern e => "Invalid ignore pattern '" ++ pattern ++ "': " ++ e.message
  | missingInclude path => "Include path does not exist: " ++ path
  | badInclude pattern e => "Invalid glob pattern '" ++ pattern ++ "': " ++ e.message
  | unreachable e => "Cannot access path: " ++ e.message

/-! ### What is left out -/

/-- What is left out of a survey. -/
structure Ignores where
  paths : List String
  patterns : List Glob.Pattern

namespace Ignores

/-- Holds of the paths that are left out: they start with an ignored path, or a
pattern stands for them. -/
def covers (ignores : Ignores) (path : String) : Bool :=
  ignores.paths.any (startsWith path) || ignores.patterns.any (·.covers path)

/-- The patterns among texts; those that cannot be read are left out. -/
def readable (texts : List String) : List Glob.Pattern :=
  texts.filterMap fun text => (Glob.Pattern.parse text).toOption

/-- What a request leaves out. -/
def ofRequest (request : SurveyRequest) : Ignores where
  paths := (request.ignores.filter (!Glob.isPattern ·)).map (join request.base)
  patterns := readable (request.ignores.filter Glob.isPattern) ++
    if request.ignoreTestFiles then readable testPatterns else []

end Ignores

/-- A warning for each ignored pattern that cannot be read. -/
def ignoreWarnings (request : SurveyRequest) : List SurveyWarning :=
  (request.ignores.filter Glob.isPattern).filterMap fun text =>
    match Glob.Pattern.parse text with
    | .error e => some (.badIgnore text e)
    | .ok _ => none

/-! ### Where to look -/

/-- The directories to walk for an included path or pattern. -/
def rootsOf (fs : FileSystem) (base text : String) : Except SurveyWarning (List String) :=
  let path := join base text
  if !Glob.isPattern text then
    if fs.has path then .ok [path] else .error (.missingInclude path)
  else match Glob.expand fs path with
    | .error e => .error (.badInclude text e)
    | .ok found => .ok (found.filter fs.hasDirectory)

/-- The directories to walk, and what went wrong with the others. -/
def scanRoots (fs : FileSystem) (request : SurveyRequest) :
    List String × List SurveyWarning :=
  if request.includes.isEmpty then ([request.base], [])
  else
    let results := request.includes.map (rootsOf fs request.base)
    (results.flatMap fun
      | .ok roots => roots
      | .error _ => [],
     results.filterMap fun
      | .ok _ => none
      | .error w => some w)

/-! ### The survey -/

/-- Adds a text to a list in ascending order, unless it is there already. -/
def insertText (text : String) : List String → List String
  | [] => [text]
  | other :: rest =>
    if text < other then text :: other :: rest
    else if text = other then other :: rest
    else other :: insertText text rest

/-- Texts in ascending order, each once. -/
def sortedTexts (texts : List String) : List String := texts.foldr insertText []

/-- What a survey has found. -/
structure Survey where
  /-- The files, in ascending order. -/
  files : List String
  /-- How many paths could not be walked. -/
  skipped : Nat
  warnings : List SurveyWarning

/-- Looks for the files that a request asks for. -/
def survey (fs : FileSystem) (request : SurveyRequest) : Survey :=
  let ignores := Ignores.ofRequest request
  let (roots, rootWarnings) := scanRoots fs request
  let walks := roots.map (walk fs ignores.covers isSource)
  let unreachable := walks.filterMap fun
    | .ok _ => none
    | .error e => some (SurveyWarning.unreachable e)
  { files := sortedTexts (walks.flatMap fun
      | .ok files => files
      | .error _ => [])
    skipped := unreachable.length
    warnings := ignoreWarnings request ++ rootWarnings ++ unreachable }

/-- A warning as it is printed. -/
def warningLine (color : Bool) (message : String) : String :=
  Display.warningLabel color ++ " " ++ message ++ "\n"

/-- The warnings as they are printed, if they are asked for. -/
def Survey.warningText (color verbose : Bool) (survey : Survey) : String :=
  if verbose then String.join (survey.warnings.map fun w =>
    warningLine color w.message) else ""

end AnimLint
