/-
AnimLint/RepairRun.lean

Repairing the files of a project.  A run repairs every file in which the
analysis has seen a finding that an edit mends, as the file stands now; the
findings of the other files remain as they were.  Nothing is written before all
files are repaired, and a file that fails is left as it is.  The repair checks
each text anew, so it meets the comments in an order of its own.

Main definitions: `FileRepair`, `RepairRun`, `RepairRun.plan`,
`RepairRun.carryOut`, `RepairRun.perform`.
-/
import AnimLint.Project
import AnimLint.Repair

namespace AnimLint

open Files

/-- A file with its repaired text. -/
structure FileRepair where
  file : String
  result : Repaired
  /-- Holds if the text differs from what the file holds. -/
  changed : Bool
deriving DecidableEq, Repr

/-- What a run has done to each file that has findings. -/
structure RepairRun where
  /-- The files that came through, in ascending order. -/
  files : List FileRepair
  /-- The files that could not be read, repaired or written. -/
  errors : List FileError

namespace RepairRun

/-- How many edits were applied. -/
def applied (run : RepairRun) : Nat := run.files.foldr (fun f n => f.result.applied + n) 0

/-- How many files have a new text. -/
def modified (run : RepairRun) : Nat := (run.files.filter (·.changed)).length

/-- The findings that are left. -/
def remaining (run : RepairRun) : List Finding := run.files.flatMap (·.result.remaining)

/-- Repairs a file as it stands. -/
def repairFile (fs : FileSystem) (visit : Visit) (target : Target) (file : String) :
    Except FileError FileRepair :=
  match fs.readText file with
  | .error e => .error ⟨file, "Failed to read file: " ++ file ++ ": " ++ e.message⟩
  | .ok text =>
    match repair target file text visit with
    | .error e => .error ⟨file, e.message⟩
    | .ok result => .ok ⟨file, result, result.output != text⟩

/-- The files with a finding that an edit mends. -/
def targets (analysis : Analysis) : List String :=
  (analysis.findings.filter fun (_, found) => found.any (·.isFixable)).map (·.1)

/-- The other files with findings, as they remain. -/
def untouched (analysis : Analysis) : List FileRepair :=
  (analysis.findings.filter fun (_, found) => !found.any (·.isFixable)).map
    fun (file, found) =>
    ⟨file, ⟨[], 0, 0, found⟩, false⟩

/-- Writes the files with a new text; one that cannot be written counts as an
error. -/
def writeBack (fs : FileSystem) :
    List FileRepair → FileSystem × List FileRepair × List FileError
  | [] => (fs, [], [])
  | one :: rest =>
    if one.changed then
      match fs.write one.file (.text one.result.output) with
      | .error e =>
        let (fs, done, failed) := writeBack fs rest
        (fs, done, ⟨one.file, "Failed to write file: " ++ e.message⟩ :: failed)
      | .ok fs =>
        let (fs, done, failed) := writeBack fs rest
        (fs, one :: done, failed)
    else
      let (fs, done, failed) := writeBack fs rest
      (fs, one :: done, failed)

/-- Puts files in ascending order. -/
def inOrder (files : List FileRepair) : List FileRepair :=
  sortBy (fun a b => compare a.file b.file != .gt) files

/-- The repairs of all files that have any, and the files that failed. -/
def repairs (fs : FileSystem) (visit : Visit) (target : Target) (analysis : Analysis) :
    List FileRepair × List FileError :=
  let results := (targets analysis).map (repairFile fs visit target)
  (results.filterMap fun
    | .ok one => some one
    | .error _ => none,
   results.filterMap fun
    | .ok _ => none
    | .error e => some e)

/-- A run that writes nothing. -/
def plan (fs : FileSystem) (target : Target) (analysis : Analysis)
    (visit : Visit := .inText) : RepairRun :=
  let (done, failed) := repairs fs visit target analysis
  ⟨inOrder (done ++ untouched analysis), failed⟩

/-- A run that writes the files with a new text. -/
def carryOut (fs : FileSystem) (target : Target) (analysis : Analysis)
    (visit : Visit := .inText) : FileSystem × RepairRun :=
  let (done, failed) := repairs fs visit target analysis
  let (fs, written, unwritten) := writeBack fs done
  (fs, ⟨inOrder (written ++ untouched analysis), failed ++ unwritten⟩)

/-- A run, which writes only if it is asked to. -/
def perform (write : Bool) (fs : FileSystem) (target : Target) (analysis : Analysis)
    (visit : Visit := .inText) : FileSystem × RepairRun :=
  if write then carryOut fs target analysis visit else (fs, plan fs target analysis visit)

end RepairRun

end AnimLint
