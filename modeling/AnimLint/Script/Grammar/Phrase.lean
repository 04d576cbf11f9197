/-
AnimLint/Script/Grammar/Phrase.lean

The phrases of the grammar that are made of one another.  The rule for a phrase
is given the parsers of all phrases (`Self`) and uses them for its parts; the
knot is tied in `AnimLint.Script.Parse`.

Main definitions: `Phrase`, `Self`, `startsNoOperand`.
-/
import AnimLint.Script.Parser

namespace AnimLint.Script.Grammar

/-- The phrases that rules refer to. -/
inductive Phrase
  | module
  /-- A statement, or an import or export where those may stand. -/
  | moduleItem
  | statement
  | expression
  | assignment
  | unary
  /-- An operand with its properties and calls. -/
  | leftHand
  | construct
  /-- A tag with what it encloses. -/
  | element
  /-- A name to bind, or a pattern of them. -/
  | pattern
  | type
deriving DecidableEq, Repr

/-- The parsers of all phrases. -/
abbrev Self := Phrase → Parser Unit

/-- Holds of tokens after which a word cannot be a modifier, so that it is a
name itself. -/
def endsName (t : Token) : Bool :=
  t.kind == .endOfText ||
    [",", "\x7d", ":", "(", "=", "<", ";", "?", "!", ")"].any fun p => t.isPunctuator p

/-- Holds of tokens that cannot start an operand. -/
def startsNoOperand (t : Token) : Bool :=
  t.kind == .endOfText ||
    [")", "]", "\x7d", ",", ";", ":", "?", ".", "?.", "=", "==", "===", "!=",
      "!==", "&&", "||", "??", "|", "&", "^", "*", "**", "%", ">=", "<=",
      "=>"].any (fun p => t.isPunctuator p) ||
    ["in", "instanceof", "of", "as", "satisfies"].any fun w => t.isWord w

end AnimLint.Script.Grammar
