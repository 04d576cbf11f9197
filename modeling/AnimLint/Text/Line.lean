/-
AnimLint/Text/Line.lean

Lines of a text.  A line ends after a line feed, after a carriage return, or
after the two together; line numbers start at one.  What is shown of a line runs
from its start to the next line feed, so a line that ends in a lone carriage
return shows what follows too.

Main definitions: `lineAt`, `lineText`, `displayColumn`.
-/
import AnimLint.Text.Span
import AnimLint.Text.Width

namespace AnimLint.Text

/-- The number of the line that holds a byte offset. -/
def lineAt : List Char → Nat → Nat
  | [], _ => 1
  | '\r' :: '\n' :: r, n => if n < 2 then 1 else 1 + lineAt r (n - 2)
  | c :: r, n =>
    if n < c.utf8Size then 1
    else if c == '\n' || c == '\r' then 1 + lineAt r (n - c.utf8Size)
    else lineAt r (n - c.utf8Size)

/-- What follows the first `n` line ends, if there are so many. -/
def afterLines? : Nat → List Char → Option (List Char)
  | 0, s => some s
  | _ + 1, [] => none
  | n + 1, '\r' :: '\n' :: r => afterLines? n r
  | n + 1, c :: r => if c == '\n' || c == '\r' then afterLines? n r else
    afterLines? (n + 1) r

/-- The text shown for a line: from its start to the next line feed, empty past
the last line. -/
def lineText (s : List Char) (line : Nat) : List Char :=
  match afterLines? (line - 1) s with
  | some rest => rest.takeWhile (· != '\n')
  | none => []

/-- Columns that a character takes in a position: a tab takes four, other
controls none. -/
def displayWidth (c : Char) : Nat :=
  if c == '\t' then 4 else (charWidth? c).getD 0

/-- The columns between the last line end of a text and the end of the text. -/
def displayColumn : List Char → Nat → Nat
  | [], col => col
  | c :: r, col =>
    if c == '\n' || c == '\r' then displayColumn r 0 else
      displayColumn r (col + displayWidth c)

end AnimLint.Text
