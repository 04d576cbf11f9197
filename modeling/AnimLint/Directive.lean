/-
AnimLint/Directive.lean

Comments that silence reports.  `tweenlint-disable` silences the lines from its
own on, `tweenlint-enable` ends that before its own line, and
`tweenlint-disable-next-line` silences the line after it.  Anything may follow a
directive after a blank.

Main definitions: `Directive.parse?`, `Silence.ofDirectives`, `Silence.covers`.
-/
import AnimLint.Order
import AnimLint.Text.Blank

namespace AnimLint

open Text

/-- What a comment asks for. -/
inductive Directive
  | disable
  | enable
  | disableNextLine
deriving DecidableEq, Repr

namespace Directive

/-- The word that stands for a directive. -/
def word : Directive → String
  | .disable => "tweenlint-disable"
  | .enable => "tweenlint-enable"
  | .disableNextLine => "tweenlint-disable-next-line"

/-- Holds if a text starts with the word and a blank or nothing follows it. -/
def opens (word text : List Char) : Bool :=
  match word, text with
  | [], [] => true
  | [], c :: _ => isBlank c
  | w :: word, c :: text => w == c && opens word text
  | _ :: _, [] => false

/-- The directive that the text of a comment holds. -/
def parse? (comment : List Char) : Option Directive :=
  [disableNextLine, disable, enable].find? fun d => opens d.word.toList (trim comment)

end Directive

/-- Lines from `first` to `last`; no last line means to the end. -/
structure LineRange where
  first : Nat
  last : Option Nat
deriving DecidableEq, Repr

/-- Holds of the lines in a range. -/
def LineRange.has (range : LineRange) (line : Nat) : Bool :=
  range.first ≤ line && match range.last with
    | none => true
    | some last => line ≤ last

/-- The lines of a text on which nothing is reported. -/
structure Silence where
  lines : List Nat
  ranges : List LineRange
deriving DecidableEq, Repr

namespace Silence

/-- Holds of the lines on which nothing is reported. -/
def covers (silence : Silence) (line : Nat) : Bool :=
  silence.lines.contains line || silence.ranges.any (·.has line)

/-- Reads directives in order; `since` is the line of the `disable` that is in
force. -/
def readFrom (since : Option Nat) : List (Nat × Directive) → Silence
  | [] =>
    match since with
    | none => ⟨[], []⟩
    | some first => ⟨[], [⟨first, none⟩]⟩
  | (line, .disable) :: rest => readFrom (some (since.getD line)) rest
  | (line, .enable) :: rest =>
    match since with
    | none => readFrom none rest
    | some first =>
      let silence := readFrom none rest
      { silence with ranges := ⟨first, some (line - 1)⟩ :: silence.ranges }
  | (line, .disableNextLine) :: rest =>
    let silence := readFrom since rest
    { silence with lines := (line + 1) :: silence.lines }

/-- The lines silenced by directives with the lines they stand on, taken in
order of line. -/
def ofDirectives (directives : List (Nat × Directive)) : Silence :=
  readFrom none (sortBy (fun a b => a.1 ≤ b.1) directives)

end Silence

end AnimLint
