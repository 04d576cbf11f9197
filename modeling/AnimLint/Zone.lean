/-
AnimLint/Zone.lean

The zones of a call.  A call that has an object literal among its arguments has
two: from the `(` of the argument list to the first object, and from the last
object to the closing `)`.  A zone is cut into pieces, the arguments that lie in
it and the gaps between them; only gaps are ever edited.

The ranges of a call are not trusted.  Whatever they are, a zone that is found
is a valid slice strictly inside the call, and one whose bounds make no sense is
left out.

Main definitions: `Call`, `Zone`, `zones`, `compactPieces`.
-/
import AnimLint.Gap
import AnimLint.Text.Span

namespace AnimLint

open Text

/-! ### Calls -/

/-- One call expression, as byte ranges of the text it stands in. -/
structure Call where
  /-- The whole call, from the callee to the closing `)`. -/
  span : Span
  callee : Span
  /-- Where to look for the `(`: after the callee and its type arguments. -/
  argsFrom : Nat
  /-- The arguments in order. -/
  arguments : List Span
  /-- From the start of the first object literal among the arguments to the end
  of the last. -/
  config : Option Span
deriving DecidableEq, Repr

/-- The text of the callee, if its range is a slice of the text. -/
def Call.calleeText? (source : List Char) (call : Call) : Option (List Char) :=
  slice? source call.callee

/-! ### Zones -/

/-- The side of the configuration object on which a zone lies. -/
inductive Side
  | leading
  | trailing
deriving DecidableEq, Repr, Inhabited

/-- A part of a zone. -/
inductive Piece
  /-- Commas, blanks and comments between arguments. -/
  | gap (text : List Char)
  /-- The text of one argument. -/
  | argument (text : List Char)
deriving DecidableEq, Repr

/-- The text of a piece. -/
def Piece.text : Piece → List Char
  | .gap t => t
  | .argument t => t

/-- A stretch of the argument list outside the configuration object. -/
structure Zone where
  side : Side
  span : Span
  text : List Char
  pieces : List Piece
deriving DecidableEq, Repr

/-- Holds if a line break separates the arguments; breaks inside an argument are
its own. -/
def piecesBreak (pieces : List Piece) : Bool :=
  pieces.any fun
    | .gap t => Gap.hasLineBreak t
    | .argument _ => false

/-- Holds if a line comment stands between the arguments. -/
def piecesComment (pieces : List Piece) : Bool :=
  pieces.any fun
    | .gap t => Gap.hasLineComment t
    | .argument _ => false

/-- Holds if a line break separates the arguments in the zone. -/
def Zone.spansLines (zone : Zone) : Bool := piecesBreak zone.pieces

/-- Holds if a line comment stands between the arguments, so that joining lines
would change what it hides. -/
def Zone.hasLineComment (zone : Zone) : Bool := piecesComment zone.pieces

/-! ### Cutting a zone into pieces -/

/-- The gap that fills a span, unless the span is empty. -/
def gapOf? (source : List Char) (span : Span) : Option (List Piece) :=
  if span.start < span.stop then
    (slice? source span).map fun text => [.gap text] else some []

/-- The pieces from `cursor` to the end of `bounds`.  Arguments outside the
bounds are passed over; one that starts before the cursor, or reaches over the
end, spoils the zone. -/
def piecesFrom? (source : List Char) (bounds : Span) :
    Nat → List Span → Option (List Piece)
  | cursor, [] => gapOf? source ⟨cursor, bounds.stop⟩
  | cursor, arg :: rest =>
    if arg.stop ≤ bounds.start || bounds.stop ≤ arg.start then
      piecesFrom? source bounds cursor rest
    else if arg.start < cursor || bounds.stop < arg.stop then none
    else do
      let before ← gapOf? source ⟨cursor, arg.start⟩
      let argument ← slice? source arg
      let after ← piecesFrom? source bounds arg.stop rest
      return before ++ .argument argument :: after

/-- The pieces of a stretch of text, given the arguments. -/
def pieces? (source : List Char) (arguments : List Span) (bounds : Span) :
    Option (List Piece) :=
  piecesFrom? source bounds bounds.start arguments

/-! ### Finding the zones -/

/-- The zone with given bounds, if they lie strictly inside the call and cut no
argument. -/
def zone? (source : List Char) (call : Call) (side : Side) (bounds : Span) :
    Option Zone :=
  if bounds.stop < bounds.start || bounds.start ≤ call.span.start ||
    call.span.stop ≤ bounds.stop then
    none
  else do
    let text ← slice? source bounds
    let pieces ← pieces? source call.arguments bounds
    return ⟨side, bounds, text, pieces⟩

/-- The byte offset just after the first `(`. -/
def afterParen? : List Char → Option Nat
  | [] => none
  | c :: r => if c == '(' then some c.utf8Size else (afterParen? r).map (c.utf8Size + ·)

/-- The zone before the configuration object, from the first `(` after the
callee. -/
def leadingZone? (source : List Char) (call : Call) (config : Span) : Option Zone := do
  let between ← slice? source ⟨call.argsFrom, config.start⟩
  let skip ← afterParen? between
  zone? source call .leading ⟨call.argsFrom + skip, config.start⟩

/-- The zone after the configuration object, up to the `)` that ends the
call. -/
def trailingZone? (source : List Char) (call : Call) (config : Span) : Option Zone :=
  if call.span.stop = 0 then none
  else if slice? source ⟨call.span.stop - 1, call.span.stop⟩ = some [')'] then
    zone? source call .trailing ⟨config.stop, call.span.stop - 1⟩
  else none

/-- The zones of a call, the leading one first. -/
def zones (source : List Char) (call : Call) : List Zone :=
  match call.config with
  | none => []
  | some config =>
    (leadingZone? source call config).toList ++ (trailingZone? source call config).toList

/-! ### One-line form -/

/-- A piece on one line: arguments stay as they are. -/
def Piece.compact : Piece → List Char
  | .gap t => Gap.compactGap t
  | .argument t => t

/-- Pieces on one line, where the first gap loses the blanks it starts with. -/
def compactLeading : List Piece → List Char
  | .gap t :: rest => trimStart (Gap.compactGap t) ++ rest.flatMap Piece.compact
  | pieces => pieces.flatMap Piece.compact

/-- Pieces on one line, where the last gap loses the blanks it ends with. -/
def compactTrailing : List Piece → List Char
  | [] => []
  | [.gap t] => trimEnd (Gap.compactGap t)
  | piece :: rest => piece.compact ++ compactTrailing rest

/-- The one-line form of a zone with the given pieces: no blank stands after `(`
or before `)`. -/
def compactPieces : Side → List Piece → List Char
  | .leading => compactLeading
  | .trailing => compactTrailing

/-- The one-line form of a zone. -/
def Zone.compact (zone : Zone) : List Char := compactPieces zone.side zone.pieces

end AnimLint
