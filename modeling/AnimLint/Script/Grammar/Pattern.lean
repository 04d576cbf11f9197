/-
AnimLint/Script/Grammar/Pattern.lean

What values are bound to: names, and patterns that take arrays and objects
apart.

Main definitions: `literal`, `valueName`, `boundName`, `propertyKey`, `pattern`,
`bindingElement`.
-/
import AnimLint.Script.Grammar.Phrase

namespace AnimLint.Script.Grammar

open Script.Parser

variable (self : Self)

/-! ### Literals and names -/

/-- A number or a string; spellings that modules have done away with are
noted. -/
def literal : Parser Unit := do
  let t ← peek
  let place ← here
  if t.kind == .number then
    match legacyNumber? t.text with
    | some fault => noteAt place fault
    | none => Pure.pure ()
  else
    match legacyEscape? t.text with
    | some n => noteAt (place.drop n) .legacyOctal
    | none => Pure.pure ()
  bump

/-- Words that modules reserve. -/
def reservedWords : List String :=
  ["implements", "interface", "let", "package", "private", "protected",
    "public", "static", "yield"]

/-- A name that stands for a value; one that modules reserve is noted. -/
def valueName : Parser Unit := do
  let t ← peek
  if t.isWord "await" then note .awaitName
  else if reservedWords.any (t.isWord ·) then note (.reservedName (String.ofList t.text))
  bump

/-- A name that is bound to a value. -/
def boundName : Parser Unit := do
  let t ← peek
  if t.isWord "eval" || t.isWord "arguments" then note .fixedName
  valueName

/-- The name of a declaration, which has to be next. -/
def declaredName : Parser Unit := do
  if ← seesName then boundName else failLexical .nameExpected

/-! ### Patterns -/

/-- The key of a property: a word, a literal, or an expression in brackets. -/
def propertyKey : Parser Unit := do
  let t ← peek
  match t.kind with
  | .word => bump
  | .string | .number => literal
  | _ =>
    if ← take "[" then
      within Setting.inBrackets (self .assignment)
      expect "]"
    else
      failUnexpected "identifier, string literal, numeric literal or [ for the computed key"

/-- A pattern with a value for when there is none. -/
def bindingElement : Parser Unit := do
  self .pattern
  if ← take "=" then within Setting.inBrackets (self .assignment)

/-- A pattern for the elements of an array; elements may be left out. -/
def arrayPattern : Parser Unit := node .phrase do
  expect "["
  iterate do
    if ← take "]" then return false
    if ← take "," then return true
    let _ ← take "..."
    bindingElement self
    unless ← sees "]" do expect ","
    return true

/-- A part of a pattern for an object. -/
def patternProperty : Parser Unit := do
  if ← take "..." then self .pattern
  else
    propertyKey self
    if ← take ":" then bindingElement self
    else if ← take "=" then within Setting.inBrackets (self .assignment)

/-- A pattern for the properties of an object. -/
def objectPattern : Parser Unit := node .phrase do
  expect "\x7b"
  listUntil "\x7d" (patternProperty self)

/-- A name to bind, or a pattern of them. -/
def pattern : Parser Unit := do
  let t ← peek
  if t.isPunctuator "[" then arrayPattern self
  else if t.isPunctuator "\x7b" then objectPattern self
  else if t.isName then boundName
  else failLexical (.unexpected t.shown "yield, an identifier, [ or \x7b")

end AnimLint.Script.Grammar
