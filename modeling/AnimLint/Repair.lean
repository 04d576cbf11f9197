/-
AnimLint/Repair.lean

Joining the lines of all zones of a text.  The edits of a check are applied as
one batch, and since calls nest in one another's zones the result is checked and
edited again, until no edit is left or ten passes have been made.

Main definitions: `Repaired`, `Reader.repair`, `repair`.
-/
import AnimLint.Check

namespace AnimLint

open Script

/-- How many times a text is edited at most. -/
def maxPasses : Nat := 10

/-- A text after its passes. -/
structure Repaired where
  output : List Char
  /-- Edits applied over all passes. -/
  applied : Nat
  passes : Nat
  /-- The findings in the output. -/
  remaining : List Finding
deriving DecidableEq, Repr

/-- Why a text could not be repaired. -/
inductive RepairError
  | unparsable (error : SyntaxError)
  /-- The text that came out of a pass is no script. -/
  | broken (file : String) (error : SyntaxError)
deriving DecidableEq, Repr

/-- The words for an error. -/
def RepairError.message : RepairError → String
  | unparsable e => e.message
  | broken file e => "Fixed output of " ++ file ++ " no longer parses: " ++ e.message

/-- Edits a text with the given findings, in at most so many passes. -/
def Script.Reader.repairIn (reader : Reader) (visit : Visit) (target : Target)
    (file : String) :
    Nat → List Char → List Finding → Except RepairError Repaired
  | 0, text, found => .ok ⟨text, 0, 0, found⟩
  | n + 1, text, found =>
    let edits := found.filterMap (·.edit)
    let pass := splice text edits
    if edits.isEmpty || pass.applied == 0 || pass.output == text then
      .ok ⟨text, 0, 0, found⟩
    else match reader.findings visit target file pass.output with
      | .error e => .error (.broken file e)
      | .ok again =>
        match reader.repairIn visit target file n pass.output again with
        | .error e => .error e
        | .ok done =>
          .ok { done with applied := pass.applied + done.applied, passes :=
            done.passes + 1 }

/-- Joins the lines of all zones of the text of a file. -/
def Script.Reader.repair (reader : Reader) (visit : Visit) (target : Target)
    (file : String)
    (text : List Char) : Except RepairError Repaired :=
  match reader.findings visit target file text with
  | .error e => .error (.unparsable e)
  | .ok found => reader.repairIn visit target file maxPasses text found

/-- Joins the lines of all zones of the text of a file, as the language has
it. -/
def repair (target : Target) (file : String) (text : List Char)
    (visit : Visit := .inText) : Except RepairError Repaired :=
  Reader.script.repair visit target file text

end AnimLint
