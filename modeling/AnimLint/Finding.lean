/-
AnimLint/Finding.lean

What is reported.  A finding is a zone that spreads over several lines, with the
place it is shown at; a problem is a finding or a file that could not be read or
understood.

Main definitions: `Finding`, `Problem`, `FindingMap.findings`.
-/
import AnimLint.Violation

namespace AnimLint

/-! ### Findings -/

/-- A zone that spreads over several lines. -/
structure Finding where
  file : String
  /-- First line of the range that is reported. -/
  line : Nat
  column : Nat
  /-- Last line of the range that is reported. -/
  endLine : Nat
  side : Side
  /-- The name of the method that is called; empty if the callee has none. -/
  method : List Char
  /-- The line the finding is shown with. -/
  sourceLine : List Char
  /-- The zone as it stands. -/
  zoneText : List Char
  /-- The edit that joins the lines, if there is one. -/
  edit : Option Edit
deriving DecidableEq, Repr

/-- Holds of the findings that an edit mends. -/
def Finding.isFixable (finding : Finding) : Bool := finding.edit.isSome

/-- Compares by a first order, and by a second one where the first does not
decide. -/
def thenBy (first second : Ordering) : Ordering :=
  match first with
  | .lt => .lt
  | .eq => second
  | .gt => .gt

/-- The leading zone comes before the trailing one. -/
def Side.order : Side → Side → Ordering
  | .leading, .trailing => .lt
  | .trailing, .leading => .gt
  | _, _ => .eq

/-- Order of place: by file, line, column and side. -/
def Finding.order (a b : Finding) : Ordering :=
  thenBy (compare a.file b.file) (thenBy (compare a.line b.line)
    (thenBy (compare a.column b.column) (a.side.order b.side)))

/-! ### Findings by file -/

/-- The findings of several files, in ascending order of file name. -/
abbrev FindingMap := List (String × List Finding)

namespace FindingMap

/-- Sets the findings of a file. -/
def insert (file : String) (findings : List Finding) : FindingMap → FindingMap
  | [] => [(file, findings)]
  | (name, old) :: rest =>
    if file < name then (file, findings) :: (name, old) :: rest
    else if file = name then (file, findings) :: rest
    else (name, old) :: insert file findings rest

/-- The findings of all files, in order of place. -/
def findings (files : FindingMap) : List Finding :=
  sortBy (fun a b => a.order b != .gt) (files.flatMap (·.2))

end FindingMap

/-! ### Problems -/

/-- How much a problem weighs. -/
inductive Severity
  | error
  | warning
deriving DecidableEq, Repr

/-- What a problem violates. -/
inductive Rule
  | compactCall
  | parseError
deriving DecidableEq, Repr

/-- A file that could not be read or understood, and why. -/
structure FileError where
  file : String
  error : String
deriving DecidableEq, Repr

/-- Anything that a run reports. -/
inductive Problem
  | finding (finding : Finding)
  | fileError (error : FileError)
deriving DecidableEq, Repr

namespace Problem

/-- The rule that a problem violates. -/
def rule : Problem → Rule
  | finding _ => .compactCall
  | fileError _ => .parseError

/-- Every problem is an error. -/
def severity : Problem → Severity
  | finding _ => .error
  | fileError _ => .error

/-- The file that a problem lies in. -/
def file : Problem → String
  | finding f => f.file
  | fileError e => e.file

end Problem

/-! ### Status of a run -/

/-- How a run ends. -/
inductive Status
  /-- Nothing is left to report. -/
  | success
  /-- Findings are left. -/
  | failure
  /-- Something could not be read. -/
  | error
deriving DecidableEq, Repr

namespace Status

/-- The status of a run that leaves so many findings and so many unreadable
files, which weigh more. -/
def ofCounts (findings fileErrors : Nat) : Status :=
  if 0 < fileErrors then .error else if 0 < findings then .failure else .success

/-- The exit code of a status. -/
def code : Status → Nat
  | success => 0
  | failure => 1
  | error => 2

end Status

end AnimLint
