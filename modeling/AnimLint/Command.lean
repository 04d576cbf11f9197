/-
AnimLint/Command.lean

The commands.  Each takes a file system and gives what is printed, the exit
code, and the file system as it is left.  A repair looks at the files twice, to
find what there is to do and to do it, and may meet their comments in another
order each time.

Main definitions: `Outcome`, `runCommand`, `runArguments`.
-/
import AnimLint.CommandLine.Parse
import AnimLint.RepairRun

namespace AnimLint

open Files CommandLine Display

/-- What a run prints and leaves behind. -/
structure Outcome where
  files : FileSystem
  stdout : String
  stderr : String
  code : Nat

/-- A run that fails and leaves all files as they are. -/
def failed (fs : FileSystem) (message : String) : Outcome :=
  ⟨fs, "", "Error: " ++ message ++ "\n", Status.error.code⟩

/-! ### Check -/

/-- Says what is wrong with the files of a project. -/
def runCheck (fs : FileSystem) (color : Bool) (common : Common)
    (visit : Visit := .inText) : Outcome :=
  match Project.load fs color common.sourceRoot common.verbose with
  | .error e => failed fs e.message
  | .ok (project, loadText) =>
    let analysis := project.analyze fs visit
    let problems := analysis.problems
    let unread := analysis.fileErrors.length
    { files := fs
      stdout :=
        if problems.isEmpty then success color project.files.length else
          report color problems
      stderr := loadText ++ project.analysisText color analysis ++
        parseWarning color unread common.verbose
      code := (Status.ofCounts (problems.length - unread) unread).code }

/-! ### Fix -/

/-- What a count of zones and files says, after a word for what is done to
them. -/
def countLine (word : String) (zones files : Nat) : String :=
  word ++ s!" {zones} zone(s) in {files} file(s).\n"

/-- Says what would be done to the findings. -/
def previewText (color : Bool) (found : List Finding) : String :=
  let fixable := found.filter (·.isFixable)
  let files := (sortedTexts (fixable.map (·.file))).length
  unfixable color (found.filter (!·.isFixable)) ++ fixPreview color fixable ++
    if fixable.isEmpty then ""
    else
      countLine (Style.boldYellow.paint color "Would compact") fixable.length files ++
        "Run with " ++ Style.cyan.paint color "--apply" ++ " to rewrite these files.\n"

/-- Says what a run has done. -/
def appliedText (color : Bool) (run : RepairRun) : String :=
  unfixable color run.remaining ++
    if 0 < run.applied then
      countLine (Style.boldGreen.paint color "Compacted") run.applied run.modified
    else ""

/-- Repairs the files of a project, or says what a repair would do. -/
def runFix (fs : FileSystem) (color : Bool) (common : Common) (apply : Bool)
    (look mend : Visit := .inText) : Outcome :=
  match Project.load fs color common.sourceRoot common.verbose with
  | .error e => failed fs e.message
  | .ok (project, loadText) =>
    let analysis := project.analyze fs look
    let found := analysis.findings.findings
    let unread := analysis.fileErrors.length
    let before := loadText ++ project.analysisText color analysis
    let after := parseWarning color unread common.verbose
    if found.isEmpty then
      ⟨fs, success color project.files.length, before ++ after,
        (Status.ofCounts 0 unread).code⟩
    else if apply then
      let (left, run) := RepairRun.perform true fs project.settings.target analysis mend
      { files := left
        stdout := appliedText color run
        stderr := before ++ String.join (run.errors.map (·.warning color)) ++ after
        code := (Status.ofCounts (run.remaining.length + run.errors.length) unread).code }
    else
      ⟨fs, previewText color found, before ++ after,
        (Status.ofCounts found.length unread).code⟩

/-! ### Init -/

/-- Writes a settings file with the default settings, unless there is one. -/
def runInit (fs : FileSystem) (color : Bool) : Outcome :=
  if fs.has settingsFile then
    ⟨fs, "", "Error: " ++ settingsFile ++ " already exists\n", Status.failure.code⟩
  else
    match fs.write settingsFile (.text Settings.defaultText.toList) with
    | .error e => failed fs e.message
    | .ok written =>
      { files := written
        stdout := Style.green.paint color successMark ++ " " ++
          Style.green.paint color ("Created " ++ settingsFile) ++ "\n"
        stderr := ""
        code := Status.success.code }

/-! ### All commands -/

/-- Runs a command. -/
def runCommand (fs : FileSystem) (color : Bool) (command : Command)
    (look mend : Visit := .inText) : Outcome :=
  match command with
  | .check common => runCheck fs color common look
  | .fix common apply => runFix fs color common apply look mend
  | .init => runInit fs color
  | .serve => failed fs "Serve command should be handled before run()"

/-- Runs a command line; an empty one asks for help. -/
def runArguments (fs : FileSystem) (color : Bool) (arguments : List String)
    (look mend : Visit := .inText) : Outcome :=
  match parse arguments with
  | .ok (some command) => runCommand fs color command look mend
  | .ok none => ⟨fs, helpText none, "", 0⟩
  | .error e =>
    if e.isAsked then ⟨fs, e.message, "", e.code⟩ else ⟨fs, "", e.message, e.code⟩

end AnimLint
