/-
AnimLint/Splice.lean

Replacing parts of a text.  A batch of edits is taken in order of position; an
edit that starts inside one already taken, or whose range is no slice of the
text, is left for a later batch.

Main definitions: `Edit`, `splice`.
-/
import AnimLint.Order
import AnimLint.Text.Span

namespace AnimLint

open Text

/-- Puts `text` in place of what `span` covers. -/
structure Edit where
  span : Span
  text : List Char
deriving DecidableEq, Repr, Inhabited

/-- What became of a batch of edits. -/
structure Spliced where
  output : List Char
  applied : Nat
  /-- Edits left out because they overlap another or fit nowhere. -/
  skipped : Nat
deriving DecidableEq, Repr

/-- Order of position: by start, then by end. -/
def Edit.before (a b : Edit) : Bool :=
  a.span.start < b.span.start ||
  (a.span.start == b.span.start && a.span.stop ≤ b.span.stop)

/-- Takes edits in turn, from the byte offset `cursor` on, where `rest` is the
text that remains. -/
def spliceFrom : Nat → List Char → List Edit → Spliced
  | _, rest, [] => ⟨rest, 0, 0⟩
  | cursor, rest, edit :: edits =>
    if edit.span.start < cursor || edit.span.stop < edit.span.start then
      let done := spliceFrom cursor rest edits
      { done with skipped := done.skipped + 1 }
    else
      match splitAt? (edit.span.start - cursor) rest with
      | none =>
        let done := spliceFrom cursor rest edits
        { done with skipped := done.skipped + 1 }
      | some (kept, after) =>
        match splitAt? (edit.span.stop - edit.span.start) after with
        | none =>
          let done := spliceFrom cursor rest edits
          { done with skipped := done.skipped + 1 }
        | some (_, rest') =>
          let done := spliceFrom edit.span.stop rest' edits
          { done with output := kept ++ edit.text ++ done.output, applied :=
            done.applied + 1 }

/-- Applies a batch of edits to a text. -/
def splice (source : List Char) (edits : List Edit) : Spliced :=
  spliceFrom 0 source (sortBy Edit.before edits)

end AnimLint
