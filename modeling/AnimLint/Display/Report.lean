/-
AnimLint/Display/Report.lean

What a run prints about its problems: each with the line it stands on and a mark
under the column, then a count; and, for the joining of lines, a preview of each
edit and a list of what cannot be edited.

Main definitions: `Problem.message`, `Problem.details?`, `Problem.hint?`,
`report`, `fixPreview`, `unfixable`, `success`, `parseWarning`.
-/
import AnimLint.Display.Style
import AnimLint.Finding
import AnimLint.Text.Quoted
import AnimLint.Text.Width

namespace AnimLint

open Display

/-! ### Words -/

/-- The name of a side. -/
def Side.name : Side → String
  | .leading => "leading"
  | .trailing => "trailing"

/-- The name of a severity. -/
def Severity.name : Severity → String
  | .error => "error"
  | .warning => "warning"

/-- The name of a rule. -/
def Rule.name : Rule → String
  | .compactCall => "compact-call"
  | .parseError => "parse-error"

/-- A text in double quotes. -/
def quoted (text : List Char) : String := String.ofList (Text.quote text)

/-- What is said about a finding. -/
def Finding.message (finding : Finding) : String :=
  let side := match finding.side with
    | .leading => "before"
    | .trailing => "after"
  "text " ++ side ++ " the config object of `." ++ String.ofList finding.method ++
    "()` spans multiple lines"

/-- The lines of a finding and what they would become. -/
def Finding.details (finding : Finding) : String :=
  let lines := s!"lines {finding.line}-{finding.endLine}"
  match finding.edit with
  | some edit => lines ++ ", compacts to " ++ quoted edit.text
  | none => lines

/-- The place of a finding as it is written. -/
def Finding.place (finding : Finding) : String :=
  finding.file ++ s!":{finding.line}:{finding.column}"

/-- What to do about a finding that no edit mends. -/
def Finding.hint? (finding : Finding) : Option String :=
  if finding.isFixable then none else
    some "contains a line comment, join these lines by hand"

namespace Problem

/-- What is said about a problem. -/
def message : Problem → String
  | finding f => f.message
  | fileError e => e.error

/-- What is added to the message. -/
def details? : Problem → Option String
  | finding f => some f.details
  | fileError _ => none

/-- What can be done about a problem. -/
def hint? : Problem → Option String
  | finding f => f.hint?
  | fileError _ => none

/-- The line of a problem; zero for a whole file. -/
def line : Problem → Nat
  | finding f => f.line
  | fileError _ => 0

/-- The column of a problem; zero for a whole file. -/
def column : Problem → Nat
  | finding f => f.column
  | fileError _ => 0

/-- Order of place: by file, line and column; a file error stands before the
findings of its file. -/
def order (a b : Problem) : Ordering :=
  thenBy (compare a.file b.file)
    (thenBy (compare a.line b.line) (compare a.column b.column))

end Problem

namespace Display

/-! ### The report -/

def successMark : String := "✓"

def failureMark : String := "✘"

/-- One thing or many. -/
def plural (count : Nat) (one many : String) : String := if count = 1 then one else many

/-- The first lines of a problem: what and where. -/
def problemHead (color : Bool) (problem : Problem) : String :=
  let style := match problem.severity with
    | .error => Style.boldRed
    | .warning => Style.boldYellow
  style.paint color problem.severity.name ++ ": " ++ problem.message ++ "  " ++
    Style.dimCyan.paint color problem.rule.name ++ "\n"

/-- An arrow and a place. -/
def placeLine (color : Bool) (place : String) : String :=
  "  " ++ Style.blue.paint color "-->" ++ " " ++ place

/-- The line of a finding between two rules, with a mark under its column;
`margin` is the room for line numbers. -/
def sourceExcerpt (color : Bool) (margin : Nat) (finding : Finding) : String :=
  let bar := Style.blue.paint color "|"
  let offset := Text.width (finding.sourceLine.take (finding.column - 1))
  spaces margin ++ " " ++ bar ++ "\n" ++
    Style.blue.paint color (padLeft margin (toString finding.line)) ++ " " ++
    bar ++ " " ++
      String.ofList finding.sourceLine ++ "\n" ++
    spaces margin ++ " " ++ bar ++ " " ++ spaces offset ++
    Style.red.paint color "^" ++ "\n"

/-- A remark under a problem. -/
def remark (color : Bool) (margin : Nat) (style : Style) (label text : String) : String :=
  spaces margin ++ " " ++ Style.blue.paint color "=" ++ " " ++
  style.paint color label ++ " " ++
    text ++ "\n"

/-- One problem with its place and remarks. -/
def problemText (color : Bool) (margin : Nat) (problem : Problem) : String :=
  let place := match problem with
    | .finding f => placeLine color f.place ++ "\n" ++ sourceExcerpt color margin f
    | .fileError e => placeLine color e.file ++ "\n"
  let note := match problem.details? with
    | some text => remark color margin Style.bold "note:" text
    | none => ""
  let hint := match problem.hint? with
    | some text => remark color margin Style.boldCyan "hint:" text
    | none => ""
  problemHead color problem ++ place ++ note ++ hint ++ "\n"

/-- The room that the line numbers of the problems take. -/
def lineMargin (problems : List Problem) : Nat :=
  let lines := problems.filterMap fun
    | .finding f => some f.line
    | .fileError _ => none
  match lines with
  | [] => 1
  | _ => (toString (lines.foldl max 0)).length

/-- How many problems there are of each severity. -/
def summary (color : Bool) (problems : List Problem) : String :=
  let total := problems.length
  let errors := (problems.filter (·.severity == .error)).length
  let warnings := total - errors
  Style.red.paint color failureMark ++ s!" {total} " ++
  plural total "problem" "problems" ++
    s!" ({errors} " ++ Style.red.paint color (plural errors "error" "errors") ++
    s!", {warnings} " ++
    Style.yellow.paint color (plural warnings "warning" "warnings") ++ ")\n"

/-- All problems in order of place, and their count; nothing if there are
none. -/
def report (color : Bool) (problems : List Problem) : String :=
  match sortBy (fun a b => a.order b != .gt) problems with
  | [] => ""
  | sorted =>
    String.join (sorted.map (problemText color (lineMargin sorted))) ++
    summary color sorted

/-! ### Other messages -/

/-- Says that nothing was found in so many files. -/
def success (color : Bool) (files : Nat) : String :=
  Style.green.paint color successMark ++ " " ++
    Style.green.paint color
      (s!"Checked {files} source " ++ plural files "file" "files" ++
        " - no issues found") ++ "\n"

/-- The word that opens a warning. -/
def warningLabel (color : Bool) : String := Style.boldYellow.paint color "warning:"

/-- Says how many files could not be parsed, unless a verbose run has named them
already. -/
def parseWarning (color : Bool) (count : Nat) (verbose : Bool) : String :=
  if 0 < count && !verbose then
    warningLabel color ++ s!" {count} file(s) could not be parsed (use " ++
      Style.cyan.paint color "-v" ++ " for details)\n"
  else ""

/-- What each edit takes away and what it puts there. -/
def fixPreview (color : Bool) (findings : List Finding) : String :=
  String.join (findings.map fun finding =>
    match finding.edit with
    | none => ""
    | some edit =>
      placeLine color finding.place ++ "  " ++
        Style.dimCyan.paint color
          ("[" ++ Rule.compactCall.name ++ " " ++ finding.side.name ++ "]") ++ "\n" ++
        "    " ++ Style.red.paint color "-" ++ " " ++ quoted finding.zoneText ++ "\n" ++
        "    " ++ Style.green.paint color "+" ++ " " ++ quoted edit.text ++ "\n\n")

/-- The findings that no edit mends. -/
def unfixable (color : Bool) (findings : List Finding) : String :=
  match findings with
  | [] => ""
  | _ =>
    Style.red.paint color failureMark ++
      s!" Cannot fix {findings.length} zone(s) containing line comments:\n" ++
      String.join (findings.map fun finding =>
        placeLine color finding.place ++ "  " ++ finding.message ++ "\n") ++ "\n"

end Display

end AnimLint
