/-
AnimLint/Gap.lean

A gap is the text between two arguments of a call: commas, blanks and comments.
It is read as a row of segments.  String and template literals and block
comments stand in it word for word, a line comment runs up to its line feed, and
everything else is code, where line breaks may go.

Joining the lines of a gap takes the line breaks out of its code, leaves one
space where the characters on both sides would otherwise run together, and then
narrows each run of blanks to one space.

Main definitions: `segments`, `hasLineBreak`, `hasLineComment`, `joinLines`,
`compactGap`.
-/
import AnimLint.Text.Alnum
import AnimLint.Text.Blank

namespace AnimLint.Gap

open Text

/-! ### Segments -/

/-- What a segment of a gap is. -/
inductive SegmentKind
  /-- Text whose blanks carry no meaning. -/
  | code
  /-- A string or template literal or a block comment. -/
  | verbatim
  /-- A comment that ends with its line. -/
  | lineComment
deriving DecidableEq, Repr

/-- A stretch of a gap of one kind. -/
structure Segment where
  kind : SegmentKind
  text : List Char
deriving DecidableEq, Repr

/-- Where the reader stands. -/
inductive Mode
  | code
  | literal (quote : Char)
  | line
  | block
deriving DecidableEq, Repr

/-- The kind of the segment that is being read. -/
def Mode.kind : Mode → SegmentKind
  | .code => .code
  | .literal _ => .verbatim
  | .line => .lineComment
  | .block => .verbatim

/-- Holds of the characters that open a literal. -/
def isQuote (c : Char) : Bool := c == '\'' || c == '"' || c == '`'

/-- The segment read so far, `taken` being its characters in reverse; none if it
is empty. -/
def finish (kind : SegmentKind) : List Char → List Segment
  | [] => []
  | c :: taken => [⟨kind, (c :: taken).reverse⟩]

/-- Reads on in a given mode, with the characters of the current segment in
reverse. -/
def segmentsFrom : Mode → List Char → List Char → List Segment
  | mode, taken, [] => finish mode.kind taken
  | .code, taken, '/' :: '/' :: r => finish .code taken ++ segmentsFrom .line ['/', '/'] r
  | .code, taken, '/' :: '*' :: r =>
    finish .code taken ++ segmentsFrom .block ['*', '/'] r
  | .code, taken, c :: r =>
    if isQuote c then finish .code taken ++ segmentsFrom (.literal c) [c] r
    else segmentsFrom .code (c :: taken) r
  | .literal quote, taken, '\\' :: c :: r =>
    segmentsFrom (.literal quote) (c :: '\\' :: taken) r
  | .literal quote, taken, c :: r =>
    if c == quote then finish .verbatim (c :: taken) ++ segmentsFrom .code [] r
    else segmentsFrom (.literal quote) (c :: taken) r
  | .line, taken, c :: r =>
    if c == '\n' then finish .lineComment taken ++ segmentsFrom .code [c] r
    else segmentsFrom .line (c :: taken) r
  | .block, taken, '*' :: '/' :: r =>
    finish .verbatim ('/' :: '*' :: taken) ++ segmentsFrom .code [] r
  | .block, taken, c :: r => segmentsFrom .block (c :: taken) r

/-- The segments of a gap, in order.  A literal or block comment that is not
closed runs to the end. -/
def segments (text : List Char) : List Segment := segmentsFrom .code [] text

/-! ### What a gap holds -/

/-- Holds of line feed and carriage return. -/
def isLineBreak (c : Char) : Bool := c == '\n' || c == '\r'

/-- Holds if a line break stands outside literals and comments. -/
def hasLineBreak (text : List Char) : Bool :=
  (segments text).any fun s => s.kind == .code && s.text.any isLineBreak

/-- Holds if there is a comment that the next line break ends. -/
def hasLineComment (text : List Char) : Bool :=
  (segments text).any fun s => s.kind == .lineComment

/-! ### Joining lines -/

/-- Holds of the characters that names and numbers are made of. -/
def isWordChar (c : Char) : Bool := c == '_' || c == '$' || isAlnum c

/-- Holds of two characters that side by side would read as one word, one
operator or the start of a comment. -/
def runTogether (a b : Char) : Bool :=
  (isWordChar a && isWordChar b) ||
    (a == '+' && b == '+') || (a == '-' && b == '-') ||
    (a == '/' && (b == '/' || b == '*'))

/-- Takes the line breaks out of what follows `last`, the character written
last. -/
def joinLinesAfter (last : Option Char) : List Char → List Char
  | [] => []
  | c :: r =>
    if isLineBreak c then
      match last, r.find? (!isLineBreak ·) with
      | some a, some b =>
        if runTogether a b then ' ' :: joinLinesAfter (some ' ') r else
          joinLinesAfter last r
      | _, _ => joinLinesAfter last r
    else c :: joinLinesAfter (some c) r

/-- Takes the line breaks out of code, leaving a space where two characters
would run together. -/
def joinLines (code : List Char) : List Char := joinLinesAfter none code

/-- The one-line form of a segment. -/
def Segment.compact (s : Segment) : List Char :=
  match s.kind with
  | .code => collapse (joinLines s.text)
  | .verbatim | .lineComment => s.text

/-- The one-line form of a gap. -/
def compactGap (text : List Char) : List Char := (segments text).flatMap Segment.compact

end AnimLint.Gap
