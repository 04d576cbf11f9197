/-
AnimLint/Glob/Pattern.lean

Glob patterns.  `?` stands for any character and `*` for any text, slashes
included; `**` has to be a whole component of a path and stands for any number
of components; `[…]` stands for a character among those listed and `[!…]` for
one not among them.

Main definitions: `Pattern.parse`, `Pattern.covers`.
-/

namespace AnimLint.Glob

/-! ### Patterns -/

/-- A part of a character class. -/
inductive Specifier
  | single (c : Char)
  | range (first last : Char)
deriving DecidableEq, Repr

/-- Holds if the part stands for the character. -/
def Specifier.has (c : Char) : Specifier → Bool
  | single d => c == d
  | range first last => first ≤ c && c ≤ last

/-- A part of a pattern. -/
inductive Token
  | char (c : Char)
  | anyChar
  | anyText
  | anyComponents
  | among (specifiers : List Specifier)
  | notAmong (specifiers : List Specifier)
deriving DecidableEq, Repr

/-- A glob pattern. -/
structure Pattern where
  tokens : List Token
deriving DecidableEq, Repr

/-- Holds of patterns with a part that stands for any number of components. -/
def Pattern.isRecursive (p : Pattern) : Bool := p.tokens.contains .anyComponents

/-- The text that a pattern without wildcards stands for. -/
def literal? : List Token → Option (List Char)
  | [] => some []
  | .char c :: r => (literal? r).map (c :: ·)
  | _ :: _ => none

/-- The text that a pattern without wildcards stands for. -/
def Pattern.literal? (p : Pattern) : Option (List Char) := Glob.literal? p.tokens

/-- Holds of texts that are taken for patterns; any other is a path as it
stands. -/
def isPattern (text : String) : Bool := text.toList.any fun c => c == '*' || c == '?'

/-! ### Errors -/

/-- What is wrong with a pattern. -/
inductive Fault
  /-- More than two stars in a row. -/
  | wildcards
  /-- Two stars that are no component of their own. -/
  | recursiveWildcards
  /-- A bracket that opens no class. -/
  | range
deriving DecidableEq, Repr

/-- A fault with the number of characters before its place. -/
structure PatternError where
  position : Nat
  fault : Fault
deriving DecidableEq, Repr

/-- The words for a fault. -/
def Fault.message : Fault → String
  | wildcards => "wildcards are either regular `*` or recursive `**`"
  | recursiveWildcards => "recursive wildcards must form a single path component"
  | range => "invalid range pattern"

/-- The words for an error. -/
def PatternError.message (e : PatternError) : String :=
  s!"Pattern syntax error near position {e.position}: " ++ e.fault.message

/-! ### Reading -/

/-- The parts of a character class: a hyphen between two characters makes a
range. -/
def specifiers : List Char → List Specifier
  | a :: '-' :: b :: r => .range a b :: specifiers r
  | a :: r => .single a :: specifiers r
  | [] => []

/-- The number of characters before the first `]`. -/
def untilBracket? : List Char → Option Nat
  | [] => none
  | c :: r => if c == ']' then some 0 else (untilBracket? r).map (· + 1)

/-- The class that a bracket opens, and how many characters follow the bracket
in it; its first character may be a `]`. -/
def class? : List Char → Option (Token × Nat)
  | '!' :: c :: r => (untilBracket? r).map fun n =>
    (.notAmong (specifiers (c :: r.take n)), n + 3)
  | '!' :: [] => none
  | c :: r => (untilBracket? r).map fun n => (.among (specifiers (c :: r.take n)), n + 2)
  | [] => none

/-- Adds a part for any number of components, unless one stands there
already. -/
def addComponents (before : List Token) : List Token :=
  match before with
  | .anyComponents :: _ :: _ => before
  | _ => .anyComponents :: before

/-- Reads on at a position, where `last` is the character before it, `before`
are the parts so far in reverse, and `skip` characters are read already. -/
def tokensFrom (skip position : Nat) (last : Option Char) (before : List Token) :
    List Char → Except PatternError (List Token)
  | [] => .ok before.reverse
  | c :: r =>
    match skip with
    | k + 1 => tokensFrom k (position + 1) (some c) before r
    | 0 =>
      if c == '?' then tokensFrom 0 (position + 1) (some c) (.anyChar :: before) r
      else if c == '[' then
        match class? r with
        | some (token, n) => tokensFrom n (position + 1) (some c) (token :: before) r
        | none => .error ⟨position, .range⟩
      else if c == '*' then
        match (r.takeWhile (· == '*')).length with
        | 0 => tokensFrom 0 (position + 1) (some c) (.anyText :: before) r
        | 1 =>
          if last.isSome && last != some '/' then
            .error ⟨position - 1, .recursiveWildcards⟩
          else match (r.drop 1).head? with
            | none => .ok (addComponents before).reverse
            | some '/' => tokensFrom 2 (position + 1) (some c) (addComponents before) r
            | some _ => .error ⟨position + 2, .recursiveWildcards⟩
        | _ => .error ⟨position + 2, .wildcards⟩
      else tokensFrom 0 (position + 1) (some c) (.char c :: before) r

/-- Reads a pattern. -/
def Pattern.parse (text : String) : Except PatternError Pattern :=
  match tokensFrom 0 0 none [] text.toList with
  | .error e => .error e
  | .ok tokens => .ok ⟨tokens⟩

/-! ### Matching -/

/-- All ends of a text, the longest first. -/
def suffixes : List Char → List (List Char)
  | [] => [[]]
  | c :: r => (c :: r) :: suffixes r

/-- What follows each slash of a text, and its end. -/
def afterSlashes : List Char → List (List Char)
  | [] => [[]]
  | c :: r => if c == '/' then r :: afterSlashes r else afterSlashes r

/-- Holds if parts of a pattern stand for a text. -/
def coversAll : List Token → List Char → Bool
  | [], s => s.isEmpty
  | .anyText :: ts, s => (suffixes s).any (coversAll ts)
  | .anyComponents :: ts, s => coversAll ts s || (afterSlashes s).any (coversAll ts)
  | .char c :: ts, s =>
    match s with
    | [] => false
    | d :: r => c == d && coversAll ts r
  | .anyChar :: ts, s =>
    match s with
    | [] => false
    | _ :: r => coversAll ts r
  | .among specs :: ts, s =>
    match s with
    | [] => false
    | d :: r => specs.any (·.has d) && coversAll ts r
  | .notAmong specs :: ts, s =>
    match s with
    | [] => false
    | d :: r => !specs.any (·.has d) && coversAll ts r

/-- Holds if a pattern stands for a text as a whole. -/
def Pattern.covers (p : Pattern) (text : String) : Bool := coversAll p.tokens text.toList

end AnimLint.Glob
