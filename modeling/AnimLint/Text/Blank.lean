/-
AnimLint/Text/Blank.lean

Blanks: the twenty-five characters with the property White_Space.  Zero-width
characters and the byte-order mark are not among them.

Main definitions: `isBlank`, `trimStart`, `trimEnd`, `trim`, `collapse`.
-/

namespace AnimLint.Text

/-- Holds of the characters with the property White_Space. -/
def isBlank (c : Char) : Bool :=
  let n := c.toNat
  (9 ≤ n && n ≤ 13) || n == 0x20 ||
    (0x80 ≤ n &&
      (n == 0x85 || n == 0xA0 || n == 0x1680 || (0x2000 ≤ n && n ≤ 0x200A) ||
        n == 0x2028 ||
        n == 0x2029 || n == 0x202F || n == 0x205F || n == 0x3000))

/-- Drops the blanks at the front. -/
def trimStart (s : List Char) : List Char := s.dropWhile isBlank

/-- Drops the blanks at the back. -/
def trimEnd : List Char → List Char
  | [] => []
  | c :: r =>
    match trimEnd r with
    | [] => if isBlank c then [] else [c]
    | kept => c :: kept

/-- Drops the blanks at both ends. -/
def trim (s : List Char) : List Char := trimEnd (trimStart s)

/-- Replaces each run of blanks by one space; `inRun` says that the space of the
current run is already written. -/
def collapseFrom (inRun : Bool) : List Char → List Char
  | [] => []
  | c :: r =>
    if isBlank c then
      if inRun then collapseFrom true r else ' ' :: collapseFrom true r
    else c :: collapseFrom false r

/-- Replaces each run of blanks by one space. -/
def collapse (s : List Char) : List Char := collapseFrom false s

end AnimLint.Text
