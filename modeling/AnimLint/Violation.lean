/-
AnimLint/Violation.lean

The rule on one call: in a call that is looked at, neither zone may spread its
arguments over several lines.

Main definitions: `Violation`, `violations`.
-/
import AnimLint.Splice
import AnimLint.Target
import AnimLint.Zone

namespace AnimLint

/-- A zone that spreads over several lines. -/
structure Violation where
  side : Side
  span : Text.Span
  zoneText : List Char
  /-- The edit that joins the lines; none if a line comment forbids it. -/
  edit : Option Edit
deriving DecidableEq, Repr

/-- The violation that a zone is, if its arguments spread over several lines. -/
def Zone.violation? (zone : Zone) : Option Violation :=
  if zone.spansLines then
    some {
      side := zone.side
      span := zone.span
      zoneText := zone.text
      edit := if zone.hasLineComment then none else some ⟨zone.span, zone.compact⟩ }
  else none

/-- The violations of one call: none, one or two. -/
def violations (target : Target) (source : List Char) (call : Call) : List Violation :=
  match call.calleeText? source with
  | none => []
  | some callee => if target.covers callee then
    (zones source call).filterMap Zone.violation? else []

end AnimLint
