/-
AnimLint/Text/Similarity.lean

How alike two words are, by Jaro's measure: the characters they share at nearby
places, less a half for each that is out of turn.  The measure is a ratio
between zero and one and is kept exact.

Main definitions: `similarity`, `similar`.
-/
import AnimLint.Order

namespace AnimLint.Text

/-- Looks for a character among the given ones that are not taken yet, up to a
number of places, and takes the first. -/
def takeNear (c : Char) : Nat → Nat → List (Char × Bool) → Option (List (Char × Bool))
  | _, _, [] => none
  | skip + 1, room, d :: rest => (takeNear c skip room rest).map (d :: ·)
  | 0, 0, _ :: _ => none
  | 0, room + 1, (d, taken) :: rest =>
    if c == d && !taken then some ((d, true) :: rest)
    else (takeNear c 0 room rest).map ((d, taken) :: ·)

/-- The characters of a word that have a counterpart in another, in order, and
the other word with its counterparts marked; `i` counts the characters
before. -/
def shared (range : Nat) : Nat → List Char → List (Char × Bool) →
    List Char × List (Char × Bool)
  | _, [], other => ([], other)
  | i, c :: rest, other =>
    match takeNear c (i - range) (i + range + 1 - (i - range)) other with
    | some other =>
      let (more, other) := shared range (i + 1) rest other
      (c :: more, other)
    | none => shared range (i + 1) rest other

/-- A ratio of natural numbers. -/
structure Ratio where
  num : Nat
  den : Nat
deriving Repr

/-- Compares two ratios. -/
def Ratio.le (a b : Ratio) : Bool := a.num * b.den ≤ b.num * a.den

/-- How alike two words are. -/
def similarity (a b : String) : Ratio :=
  let s := a.toList
  let t := b.toList
  if s.isEmpty && t.isEmpty then ⟨1, 1⟩
  else
    let range := max s.length t.length / 2 - 1
    let (mine, marked) := shared range 0 s (t.map fun c => (c, false))
    let yours := (marked.filter (·.2)).map (·.1)
    let m := mine.length
    if m = 0 then ⟨0, 1⟩
    else
      let outOfTurn := ((mine.zip yours).filter fun (c, d) => c != d).length / 2
      ⟨m * m * t.length + m * m * s.length + (m - outOfTurn) * s.length * t.length,
        3 * s.length * t.length * m⟩

/-- The words that are rather like a given one, the most alike last. -/
def similar (word : String) (words : List String) : List String :=
  let rated := words.map fun w => (w, similarity word w)
  let near := rated.filter fun (_, r) => !r.le ⟨7, 10⟩
  (sortBy (fun a b => a.2.le b.2) near).map (·.1)

end AnimLint.Text
