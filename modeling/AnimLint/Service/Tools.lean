/-
AnimLint/Service/Tools.lean

Three tools for programs that speak JSON: one shows the settings in force, one
lists findings page by page, one repairs all files.

Main definitions: `Finding.item`, `ShownSettings`, `getConfig`, `page`, `scan`,
`fix`, `instructions`.
-/
import AnimLint.RepairRun
import AnimLint.Service.Parameters

namespace AnimLint

open Files

/-! ### Answers -/

/-- An edit as an answer holds it. -/
def Edit.item (edit : Edit) : Json :=
  .object [("start", .nat edit.span.start), ("end", .nat edit.span.stop),
    ("text", .string (String.ofList edit.text))]

/-- A finding as an answer holds it. -/
def Finding.item (finding : Finding) : Json :=
  .object ([("filePath", .string finding.file), ("line", .nat finding.line),
    ("endLine", .nat finding.endLine), ("zone", .string finding.side.name),
    ("method", .string (String.ofList finding.method)),
    ("message", .string finding.message),
    ("original", .string (String.ofList finding.zoneText))] ++
    match finding.edit with
    | some edit => [("fix", edit.item)]
    | none => [])

/-- A file that could not be used, as an answer holds it. -/
def FileError.item (e : FileError) : Json :=
  .object [("filePath", .string e.file), ("error", .string e.error)]

namespace Service

/-- Why a tool gives no answer. -/
inductive ToolError
  | parameters (error : ParameterError)
  /-- The tool could not do its work. -/
  | failed (message : String)

/-- The words for an error. -/
def ToolError.message : ToolError → String
  | parameters e => e.message
  | failed message => message

/-- The number that stands for a tool that could not do its work. -/
def failureCode : Int := -32603

/-- The answer of a tool and what it says on the way. -/
structure Answer where
  files : FileSystem
  result : Except ToolError Json
  stderr : String

/-- A tool that gives up at once. -/
def giveUp (fs : FileSystem) (e : ToolError) : Answer := ⟨fs, .error e, ""⟩

/-- Loads a project for a tool and goes on with it. -/
def withProject (fs : FileSystem) (color : Bool) (root : String)
    (onward : Project → String → Answer) : Answer :=
  match Project.load fs color (some root) false with
  | .error e => giveUp fs (.failed ("Failed to initialize: " ++ e.message))
  | .ok (project, said) => onward project said

/-! ### Settings -/

/-- Settings as an answer shows them. -/
structure ShownSettings where
  includes : List String
  ignores : List String
  ignoreTestFiles : Bool
  keywords : List String
  excludes : List String
deriving DecidableEq, Repr

/-- What is shown of settings. -/
def ShownSettings.ofSettings (settings : Settings) : ShownSettings where
  includes := settings.includes
  ignores := settings.ignores
  ignoreTestFiles := settings.ignoreTestFiles
  keywords := settings.keywords
  excludes := settings.excludes

/-- Settings as an answer holds them; the names of the fields are its own. -/
def ShownSettings.item (shown : ShownSettings) : Json :=
  .object [
    ("includes", .strings shown.includes),
    ("ignores", .strings shown.ignores),
    ("ignoreTestFiles", .bool shown.ignoreTestFiles),
    ("keywords", .strings shown.keywords),
    ("excludes", .strings shown.excludes)]

/-- Settings with where they come from, as an answer holds them. -/
def settingsAnswer (loaded : Loaded) : Json :=
  .object [
    ("fromFile", .bool loaded.fromFile),
    ("config", (ShownSettings.ofSettings loaded.settings).item)]

/-- Shows the settings that hold for a directory. -/
def getConfig (fs : FileSystem) (parameters : Json) : Answer :=
  match RootParameters.read "GetConfigParams" parameters with
  | .error e => giveUp fs (.parameters e)
  | .ok ⟨root⟩ =>
    match loadSettings fs root with
    | .error e => giveUp fs (.failed ("Failed to load config: " ++ e.message))
    | .ok loaded => ⟨fs, .ok (settingsAnswer loaded), ""⟩

/-! ### Findings page by page -/

/-- How many findings a page has if nothing else is asked for. -/
def defaultLimit : Nat := 20

/-- How many findings a page has at most. -/
def maxLimit : Nat := 100

/-- The size of a page. -/
def pageSize (limit : Option Nat) : Nat := min (limit.getD defaultLimit) maxLimit

/-- A part of a list. -/
def page (offset limit : Nat) (items : List α) : List α := (items.drop offset).take limit

/-- Holds if items follow after a part of a list. -/
def hasMore (offset limit : Nat) (items : List α) : Bool :=
  offset + (page offset limit items).length < items.length

/-- The findings of an analysis, of which one page is shown. -/
def scanAnswer (analysis : Analysis) (offset limit : Nat) : Json :=
  let found := analysis.findings.findings
  .object [
    ("totalCount", .nat found.length),
    ("totalFileCount", .nat analysis.findings.length),
    ("fixableCount", .nat (found.filter (·.isFixable)).length),
    ("items", .array ((page offset limit found).map (·.item))),
    ("parseErrors", .array (analysis.fileErrors.map (·.item))),
    ("pagination", .object [("offset", .nat offset), ("limit", .nat limit),
      ("hasMore", .bool (hasMore offset limit found))])]

/-- Lists findings. -/
def scan (fs : FileSystem) (color : Bool) (parameters : Json) (visit : Visit := .inText) :
    Answer :=
  match ScanParameters.read parameters with
  | .error e => giveUp fs (.parameters e)
  | .ok asked =>
    withProject fs color asked.root fun project said =>
      let analysis := project.analyze fs visit
      ⟨fs, .ok (scanAnswer analysis (asked.offset.getD 0) (pageSize asked.limit)),
        said ++ project.analysisText color analysis⟩

/-! ### Repair -/

/-- What a run has done. -/
def fixAnswer (analysis : Analysis) (run : RepairRun) : Json :=
  .object [
    ("appliedCount", .nat run.applied),
    ("modifiedFiles", .strings ((run.files.filter (·.changed)).map (·.file))),
    ("remaining", .array (run.remaining.map (·.item))),
    ("parseErrors", .array ((analysis.fileErrors ++ run.errors).map (·.item)))]

/-- Repairs all files. -/
def fix (fs : FileSystem) (color : Bool) (parameters : Json)
    (look mend : Visit := .inText) : Answer :=
  match RootParameters.read "FixCompactCallsParams" parameters with
  | .error e => giveUp fs (.parameters e)
  | .ok ⟨root⟩ =>
    withProject fs color root fun project said =>
      let analysis := project.analyze fs look
      let (left, run) := RepairRun.perform true fs project.settings.target analysis mend
      ⟨left, .ok (fixAnswer analysis run), said ++ project.analysisText color analysis⟩

/-! ### What the tools are for -/

/-- What a program is told about the tools. -/
def instructions : String :=
  "tweenlint MCP keeps animation calls such as gsap.to(target, \x7b ... \x7d) compact: " ++
  "the text between '(' and the config object, and between the config object and ')', " ++
  "must stay on one line.\n\n" ++
  "Available tools:\n" ++
  "1. get_config - Get project configuration\n" ++
  "2. scan_compact_calls - List offending zones with their replacement text (paginated)\n" ++
  "3. fix_compact_calls - Rewrite all fixable zones in place\n\n" ++
  "Zones containing // comments cannot be fixed automatically; edit those by hand."

end Service

end AnimLint
