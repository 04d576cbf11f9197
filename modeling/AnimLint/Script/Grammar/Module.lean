/-
AnimLint/Script/Grammar/Module.lean

Modules: statements with imports and exports among them.

Main definitions: `moduleItem`, `module`, `rules`.
-/
import AnimLint.Script.Grammar.Statement

namespace AnimLint.Script.Grammar

open Script.Parser

variable (self : Self)

/-! ### Names and sources -/

/-- The source of a module. -/
def moduleSource : Parser Unit := do
  if (← peek).kind == .string then bump else failUnexpected "a string literal"
  let t ← peek
  if t.isWord "with" || (t.isWord "assert" && !t.afterLineEnd) then
    bump
    objectLiteral self

/-- A name that is exported, which any word or string can be. -/
def exportedName : Parser Unit := do
  let t ← peek
  if t.kind == .word || t.kind == .string then bump else failLexical .nameExpected

/-- Takes a name that is exported if one is next. -/
def takeExportedName : Parser Unit := do
  let t ← peek
  if t.kind == .word || t.kind == .string then bump

/-- A name that is imported or exported, and the name it gets.  The words `type`
and `as` may also be such names. -/
def specifier : Parser Unit := do
  let u ← peekSecond
  if (← types) && (← seesWord "type") && u.isWord "as" then
    -- `type as`, `type as x`, `type as as` and `type as as x` are all names
    bump
    bump
    let _ ← takeWord "as"
    takeExportedName
  else
    if (← types) && (← seesWord "type") &&
      (u.kind == .word || u.kind == .string) then bump
    exportedName
    if ← takeWord "as" then exportedName

/-- Names in braces. -/
def specifiers : Parser Unit := do
  expect "\x7b"
  listUntil "\x7d" specifier

/-! ### Imports -/

/-- A name for a module that is asked for by a call, or for a part of a
namespace. -/
def importAlias : Parser Unit := do
  bump
  bump
  if (← seesWord "require") && (← peekSecond).isPunctuator "(" then
    bump
    bump
    if (← peek).kind == .string then bump else failUnexpected "a string literal"
    expect ")"
  else entityName self
  statementEnd

/-- What is imported and from where, after the keyword. -/
def importClause : Parser Unit := do
  let typed ← types
  let t ← peek
  let u ← peekSecond
  if typed && t.isWord "type" &&
      (u.isPunctuator "\x7b" || u.isPunctuator "*" ||
        (u.isName && (!u.isWord "from" || (← peekThird).isWord "from"))) then bump
  if (← peek).kind == .string then
    moduleSource self
    statementEnd
  else if typed && (← seesName) && (← peekSecond).isPunctuator "=" then importAlias self
  else
    let more ← if ← seesName then do
        bump
        take ","
      else Pure.pure true
    if more then
      if ← take "*" then
        expectWord "as"
        name
      else specifiers
    expectWord "from"
    moduleSource self
    statementEnd

/-- An import from its keyword on. -/
def importDeclaration : Parser Unit := node .phrase do
  bump
  importClause self

/-! ### Exports -/

/-- What a module exports without a name. -/
def exportDefault : Parser Unit := do
  let t ← peek
  let u ← peekSecond
  if t.isWord "function" ||
    (t.isWord "async" && u.isWord "function" && !u.afterLineEnd) then
    functionLike self .free false
  else if t.isWord "class" then classLike self .free
  else if (← types) && t.isWord "abstract" && u.isWord "class" then
    node .phrase do
      bump
      classLike self .free
  else if (← types) && t.isWord "interface" && u.isName then interfaceDeclaration self
  else
    self .assignment
    statementEnd

/-- Names in braces, and the module they come from. -/
def exportList : Parser Unit := do
  specifiers
  if ← takeWord "from" then moduleSource self
  statementEnd

/-- All names of another module, possibly under one name. -/
def exportAll : Parser Unit := do
  bump
  if ← takeWord "as" then exportedName
  expectWord "from"
  moduleSource self
  statementEnd

/-- An export from its keyword on. -/
def exportDeclaration : Parser Unit := node .phrase do
  bump
  let typed ← types
  let t ← peek
  let u ← peekSecond
  if t.isPunctuator "*" then exportAll self
  else if t.isPunctuator "\x7b" then exportList self
  else if ← takeWord "default" then exportDefault self
  else if typed && t.isPunctuator "=" then
    bump
    self .expression
    statementEnd
  else if typed && t.isWord "as" && u.isWord "namespace" then
    bump
    bump
    name
    statementEnd
  else if typed && t.isWord "import" then importDeclaration self
  else if typed && t.isWord "type" && u.isPunctuator "\x7b" then
    bump
    exportList self
  else if typed && t.isWord "type" && u.isPunctuator "*" then
    bump
    exportAll self
  else if (← seesVariables) || (← seesTypeDeclaration) || t.isWord "function" ||
    t.isWord "class" ||
      (t.isWord "async" && u.isWord "function" && !u.afterLineEnd) then self .statement
  else failUnexpected "\x7b"

/-! ### Modules -/

/-- A statement, an import or an export. -/
def moduleItem : Parser Unit := do
  let t ← peek
  let u ← peekSecond
  if t.isWord "export" then exportDeclaration self
  else if t.isWord "import" && !u.isPunctuator "(" && !u.isPunctuator "." then
    importDeclaration self
  else self .statement

/-- An item of a text, if there is one left. -/
def moduleStep : Parser Bool := do
  if ← seesEnd then return false
  self .moduleItem
  return true

/-- All items of a text, and its end. -/
def module : Parser Unit := node .module do
  iterate (moduleStep self)
  bump

/-- The rule for each phrase. -/
def rules : Phrase → Parser Unit
  | .module => module self
  | .moduleItem => moduleItem self
  | .statement => statement self
  | .expression => expression self
  | .assignment => assignment self
  | .unary => unary self
  | .leftHand => leftHand self
  | .construct => construct self
  | .element => element self
  | .pattern => pattern self
  | .type => type self

end AnimLint.Script.Grammar
