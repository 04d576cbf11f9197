/-
AnimLint/Script/Grammar/Statement.lean

Statements and declarations.

Main definition: `statement`.
-/
import AnimLint.Script.Grammar.Expression

namespace AnimLint.Script.Grammar

open Script.Parser

variable (self : Self)

/-! ### Variables -/

/-- One variable or pattern with its type and value. -/
def declarator (isConst isLexical inHead : Bool) : Parser Unit := do
  if isLexical && (← seesWord "let") then
    failUnexpected "let is reserved in const, let, class declaration"
  let place ← here
  let isPattern := (← sees "[") || (← sees "\x7b")
  self .pattern
  if ← types then
    let _ ← take "!"
  annotation? self
  if ← take "=" then self .assignment
  else if inHead || (← setting).ambient then return
  else if isConst then noteAt place .constWithoutValue
  else if isPattern then failAt place .patternWithoutValue

/-- Variables with commas between them, from the keyword on. -/
def variableList (inHead : Bool) : Parser Unit := do
  let t ← peek
  bump
  if t.isWord "await" then bump
  iterate do
    declarator self (t.isWord "const") (!t.isWord "var") inHead
    take ","

/-- Passes over what follows a declaration on its line, up to where a statement
may end. -/
def skipLine : Parser Unit := do
  note .semicolon
  let _ ← attempt (self .expression)
  iterate do
    if ← takeStatementEnd then return false
    match (← peek).kind with
    | .fault _ => return false
    | _ =>
      bump
      return true

/-- A declaration of variables. -/
def variableStatement : Parser Unit := node .phrase do
  variableList self false
  unless ← takeStatementEnd do skipLine self

/-! ### Conditions and loops -/

/-- An expression in parentheses that a statement depends on. -/
def condition : Parser Unit := do
  expect "("
  within Setting.inBrackets (self .expression)
  expect ")"

/-- A statement, or two, for whether a condition holds. -/
def ifStatement : Parser Unit := node .phrase do
  bump
  condition self
  self .statement
  if ← takeWord "else" then self .statement

/-- A statement in which the properties of a value are names. -/
def withStatement : Parser Unit := node .phrase do
  note (.withStatement (← types))
  bump
  condition self
  self .statement

/-- A loop with its condition before its body. -/
def whileStatement : Parser Unit := node .phrase do
  bump
  condition self
  within Setting.inLoop (self .statement)

/-- A loop with its condition after its body. -/
def doStatement : Parser Unit := node .doWhile do
  bump
  within Setting.inLoop (self .statement)
  node .phrase do
    expectWord "while"
    condition self
    let _ ← take ";"

/-- Whether a declaration of resources, which are given back at the end of a
block, starts here. -/
def seesResources : Parser Bool := do
  let t ← peek
  let u ← peekSecond
  let v ← peekThird
  let names (t u : Token) : Bool :=
    t.isWord "using" && u.isName && !u.afterLineEnd &&
      !(u.isWord "of" || u.isWord "as" || u.isWord "satisfies")
  return (← types) && (names t u || (t.isWord "await" && !u.afterLineEnd && names u v))

/-- Whether a declaration of variables starts here. -/
def seesVariables : Parser Bool := do
  let t ← peek
  let u ← peekSecond
  return (← seesResources) || t.isWord "var" || (t.isWord "const" && !u.isWord "enum") ||
    (t.isWord "let" &&
      (u.isName || u.isPunctuator "[" || u.isPunctuator "\x7b" || u.isKeyword) &&
      !u.isWord "in" && !u.isWord "instanceof")

/-- A loop over a range or over the items of a value. -/
def forStatement : Parser Unit := node .phrase do
  bump
  let _ ← takeWord "await"
  expect "("
  within (fun c => { c with allowIn := false, colonDue := false }) do
    -- a loop without a start
    if ← sees ";" then return
    if ← seesVariables then node .phrase (variableList self true)
    else self .expression
  within Setting.inBrackets do
    if ← takeWord "of" then self .assignment
    else if ← takeWord "in" then self .expression
    else
      expect ";"
      unless ← sees ";" do self .expression
      expect ";"
      unless ← sees ")" do self .expression
  expect ")"
  within Setting.inLoop (self .statement)

/-- A choice between cases. -/
def switchStatement : Parser Unit := node .phrase do
  bump
  condition self
  expect "\x7b"
  within (fun c => { c with breakable := true }) <| iterate do
    if ← take "\x7d" then return false
    if ← takeWord "case" then
      within Setting.inBrackets (self .expression)
      expect ":"
    else if ← takeWord "default" then expect ":"
    else if ← seesEnd then failExpected "\x7d"
    else self .statement
    return true

/-- A block whose faults are caught. -/
def tryStatement : Parser Unit := node .phrase do
  bump
  block self
  let caught ← takeWord "catch"
  if caught then
    if ← take "(" then
      self .pattern
      annotation? self
      expect ")"
    block self
  if ← takeWord "finally" then block self
  else unless caught do failExpected "finally"

/-! ### Jumps -/

/-- A jump out of a loop or to its next round. -/
def jumpStatement : Parser Unit := node .phrase do
  let place ← here
  let isBreak ← seesWord "break"
  bump
  let t ← peek
  let c ← setting
  if t.isName && !t.afterLineEnd then
    bump
    unless c.labels.contains t.name do noteAt place .unknownLabel
  else if isBreak then
    unless c.breakable do noteAt place .breakOutside
  else unless c.continuable do noteAt place .continueOutside
  statementEnd

/-- The end of a function with a value. -/
def returnStatement : Parser Unit := node .phrase do
  let place ← here
  bump
  unless ← seesStatementEnd do self .expression
  unless (← setting).inFunction do noteAt place .returnOutside
  statementEnd

/-- A fault thrown. -/
def throwStatement : Parser Unit := node .phrase do
  bump
  if (← peek).afterLineEnd then fail .throwLineEnd
  self .expression
  statementEnd

/-- A statement with a name. -/
def labeledStatement : Parser Unit := node .phrase do
  let t ← peek
  bump
  bump
  within (fun c => { c with labels := t.name :: c.labels }) (self .statement)

/-! ### Declarations that only types have -/

/-- A name for a type. -/
def typeAlias : Parser Unit := node .phrase do
  bump
  name
  typeParameters? self
  expect "="
  self .type
  statementEnd

/-- A named object type. -/
def interfaceDeclaration : Parser Unit := node .phrase do
  bump
  name
  typeParameters? self
  if ← takeWord "extends" then
    iterate do
      self .type
      take ","
  typeMembers self

/-- A type with named values. -/
def enumDeclaration : Parser Unit := node .phrase do
  let _ ← takeWord "const"
  bump
  name
  expect "\x7b"
  within Setting.inBrackets <| listUntil "\x7d" do
    propertyKey self
    if ← take "=" then self .assignment

/-- Items in braces, as those of a module. -/
def itemBlock : Parser Unit := node .phrase do
  expect "\x7b"
  iterate do
    if ← take "\x7d" then return false
    if ← seesEnd then failExpected "\x7d"
    self .moduleItem
    return true

/-- A module inside a module. -/
def namespaceDeclaration : Parser Unit := node .phrase do
  bump
  if (← peek).kind == .string then bump
  else
    iterate do
      name
      take "."
  if ← sees "\x7b" then itemBlock self else statementEnd

/-- Whether a declaration that only types have starts here. -/
def seesTypeDeclaration : Parser Bool := do
  let t ← peek
  let u ← peekSecond
  if !(← types) then return false
  return t.isWord "enum" || (t.isWord "const" && u.isWord "enum") ||
    (!u.afterLineEnd &&
      (((t.isWord "type" || t.isWord "interface" || t.isWord "namespace" ||
        t.isWord "module") && u.isName) ||
        (t.isWord "module" && u.kind == .string) ||
        (t.isWord "global" && u.isPunctuator "\x7b" && (← setting).ambient) ||
        (t.isWord "abstract" && u.isWord "class") ||
        (t.isWord "declare" &&
          (u.isName || ["function", "class", "var", "const", "enum", "import"].any
            (u.isWord ·)))))

/-- A declaration that only types have. -/
def typeDeclaration : Parser Unit := do
  let t ← peek
  if t.isWord "type" then typeAlias self
  else if t.isWord "interface" then interfaceDeclaration self
  else if t.isWord "namespace" || t.isWord "module" || t.isWord "global" then
    if t.isWord "global" then node .phrase do
      bump
      itemBlock self
    else namespaceDeclaration self
  else if t.isWord "abstract" then
    node .phrase do
      bump
      classLike self .required
  else if t.isWord "declare" then
    node .phrase do
      bump
      within (fun c => { c with ambient := true }) (self .moduleItem)
  else enumDeclaration self

/-! ### Statements -/

/-- An expression as a statement. -/
def expressionStatement : Parser Unit := node .phrase do
  self .expression
  unless ← takeStatementEnd do fail .statementEnd

/-- A statement. -/
def statement : Parser Unit := do
  let t ← peek
  let u ← peekSecond
  match t.kind with
  | .fault _ => failLexical .expressionExpected
  | .punctuator =>
    if t.isPunctuator "\x7b" then block self
    else if t.isPunctuator ";" then node .phrase bump
    else expressionStatement self
  | .word =>
    if ← seesVariables then variableStatement self
    else if t.isWord "function" then functionLike self .required false
    else if t.isWord "async" && u.isWord "function" && !u.afterLineEnd then
      functionLike self .required false
    else if t.isWord "class" then classLike self .required
    else if t.isWord "if" then ifStatement self
    else if t.isWord "for" then forStatement self
    else if t.isWord "while" then whileStatement self
    else if t.isWord "do" then doStatement self
    else if t.isWord "with" then withStatement self
    else if t.isWord "switch" then switchStatement self
    else if t.isWord "return" then returnStatement self
    else if t.isWord "break" || t.isWord "continue" then jumpStatement
    else if t.isWord "throw" then throwStatement self
    else if t.isWord "try" then tryStatement self
    else if t.isWord "debugger" then
      node .phrase do
        bump
        statementEnd
    else if t.isName && u.isPunctuator ":" then labeledStatement self
    else if ← seesTypeDeclaration then typeDeclaration self
    else if t.isWord "export" ||
      (t.isWord "import" && !u.isPunctuator "(" && !u.isPunctuator ".")
    then fail .nestedModuleItem
    else expressionStatement self
  | _ => expressionStatement self

end AnimLint.Script.Grammar
