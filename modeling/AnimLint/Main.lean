/-
AnimLint/Main.lean

The program.  The files around the current directory and around the source root
are read into a value, the command line is run on it, and the files that come
out different are written.  Of the directories above only what decides the
settings is read, and of the files only those that are checked or hold settings.
-/
import AnimLint.Command

namespace AnimLint.Program

open Files

/-! ### Reading -/

/-- The content of a file, if it matters. -/
def readContent (directory name : String) : IO Content := do
  if isSource name || name == settingsFile then
    return .ofBytes (← IO.FS.readBinFile (join directory name)).toList
  else return .text []

/-- The nodes in a directory; what cannot be read is left out. -/
partial def readEntries (directory : String) : IO (List (String × Node)) := do
  try
    let mut entries := []
    for entry in ← (← IO.FS.realPath directory).readDir do
      let name := entry.fileName
      try
        match (← entry.path.symlinkMetadata).type with
        | .dir => entries :=
          (name, .directory (← readEntries (join directory name))) :: entries
        | .file => entries := (name, .file (← readContent directory name)) :: entries
        | .symlink =>
          entries := (name,
            .link (← IO.FS.realPath (join directory name)).toString) :: entries
        | .other => pure ()
      catch _ => pure ()
    return entries.reverse
  catch _ => return []

/-- What decides the settings in a directory that is not read as a whole. -/
def readMarks (directory : String) : IO (List (String × Node)) := do
  let path ← IO.FS.realPath directory
  let mut marks := []
  if ← (path / ".git").pathExists then marks := (".git", .empty) :: marks
  if ← (path / settingsFile).pathExists then
    marks := (settingsFile, .file (← readContent directory settingsFile)) :: marks
  return marks

/-- The tree down to a directory, which is read as a whole. -/
def readDown (directory : String) : List String → IO Node
  | [] => return .directory (← readEntries directory)
  | name :: rest => do
    let inner ← readDown (join directory name) rest
    return .directory ((name, inner) :: (← readMarks directory))

/-- Puts what was read down to a directory into another tree. -/
def graft : List String → Node → Node → Node
  | [], _, new => new
  | name :: rest, old, new =>
    match new.child? name with
    | none => old
    | some inner =>
      let inner := match old.child? name with
        | some outer => graft rest outer inner
        | none => inner
      .directory (Node.setEntry name inner old.entries)

/-- The names that lead to a directory from the root, if there is such a
directory. -/
def placeOf (directory : String) : IO (List String) := do
  try
    let path ← IO.FS.realPath directory
    let path := if ← path.isDir then path else path.parent.getD path
    return (names path.toString).filter (· != "")
  catch _ => return []

/-- The source root that a command line names. -/
def sourceRoot? (arguments : List String) : Option String :=
  match CommandLine.parse arguments with
  | .ok (some (.check common)) => common.sourceRoot
  | .ok (some (.fix common _)) => common.sourceRoot
  | _ => none

/-- The files that a command line may be about. -/
def readFiles (arguments : List String) : IO FileSystem := do
  let current ← placeOf "."
  let tree ← readDown "/" current
  match sourceRoot? arguments with
  | none => return ⟨tree, current⟩
  | some root =>
    let place ← placeOf root
    if current.isPrefixOf place || place.isEmpty then return ⟨tree, current⟩
    else return ⟨graft place tree (← readDown "/" place), current⟩

/-! ### Writing -/

/-- The files of a second list that the first does not have as they are; both
are in the same order, up to new files. -/
def differing : List (String × Content) → List (String × Content) →
    List (String × Content)
  | _, [] => []
  | [], after => after
  | old :: before, new :: after =>
    if old.1 ≠ new.1 then new :: differing (old :: before) after
    else if old.2 = new.2 then differing before after
    else new :: differing before after

/-- Writes the files that are new or different. -/
def writeFiles (before after : FileSystem) : IO Unit := do
  for (path, content) in
      differing (contentsIn "/" before.root.entries)
        (contentsIn "/" after.root.entries) do
    IO.FS.writeFile path (String.ofList content.shown)

/-- Holds if colors are wanted. -/
def wantsColor : IO Bool := do
  let plain ← IO.getEnv "NO_COLOR"
  return (← (← IO.getStdout).isTty) && plain.isNone

end AnimLint.Program

/-- Runs the command line. -/
def main (arguments : List String) : IO UInt32 := do
  let files ← AnimLint.Program.readFiles arguments
  let outcome := AnimLint.runArguments files (← AnimLint.Program.wantsColor) arguments
  AnimLint.Program.writeFiles files outcome.files
  (← IO.getStdout).putStr outcome.stdout
  (← IO.getStderr).putStr outcome.stderr
  return outcome.code.toUInt32
