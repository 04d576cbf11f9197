/-
AnimLint/Script/Grammar/Expression.lean

Expressions.  Operators are read in a row, without regard to how strongly they
bind: what the tree is asked for, the calls in their order and the text they
cover, does not depend on it.

Main definitions: `expression`, `assignment`, `unary`, `leftHand`, `construct`.
-/
import AnimLint.Script.Grammar.Function
import AnimLint.Script.Grammar.Markup

namespace AnimLint.Script.Grammar

open Script.Parser

variable (self : Self)

/-! ### Literals -/

/-- An expression that may be spread over several places. -/
def spreadable : Parser Unit := do
  if ← sees "..." then
    node .phrase do
      bump
      self .assignment
  else self .assignment

/-- An array; elements may be left out. -/
def arrayLiteral : Parser Unit := node .array do
  expect "["
  within Setting.inBrackets <| iterate do
    if ← take "]" then return false
    if ← take "," then return true
    spreadable self
    unless ← sees "]" do expect ","
    return true

/-- A property of an object: a spread, a method, a key with a value, or a name
that is both. -/
def property : Parser Unit := node .phrase do
  let t ← peek
  let u ← peekSecond
  if ← take "..." then self .assignment
  else if (t.isWord "get" || t.isWord "set") && !endsName u then
    bump
    propertyKey self
    let _ ← functionTail self false false
  else if t.isWord "async" && !endsName u && !u.afterLineEnd then
    bump
    let yields ← take "*"
    propertyKey self
    let _ ← functionTail self true yields
  else if ← take "*" then
    propertyKey self
    let _ ← functionTail self false true
  else
    propertyKey self
    if (← sees "(") || ((← types) && (← sees "<")) then
      let _ ← functionTail self false false
    else if ← take ":" then self .assignment
    else if t.isName then
      if ← take "=" then self .assignment
    else failUnexpected "identifier"

/-- An object. -/
def objectLiteral : Parser Unit := node .object do
  expect "\x7b"
  within Setting.inBrackets (listUntil "\x7d" (property self))

/-- A template with the expressions in its places. -/
def templateLiteral : Parser Unit := node .phrase do
  iterate do
    let t ← peek
    bump
    if t.kind == .template true then return false
    within Setting.inBrackets (self .expression)
    unless ← sees "\x7d" do failExpected "\x7d"
    recutAfterTrivia templateLexeme
    return true

/-- An expression in parentheses. -/
def parenthesized : Parser Unit := node .paren do
  expect "("
  within Setting.inBrackets <| iterate do
    self .assignment
    if ← take ")" then return false
    expect ","
    return true

/-! ### Operands -/

/-- Words that stand for values of their own. -/
def constants : List String := ["this", "null", "true", "false"]

/-- An operand without properties and calls. -/
def primary : Parser Unit := do
  let t ← peek
  let u ← peekSecond
  match t.kind with
  | .number | .string => node .constant literal
  | .template _ => templateLiteral self
  | .privateName => if u.isWord "in" then bump else fail .expressionExpected
  | .word =>
    if t.isWord "function" then functionLike self .free true
    else if t.isWord "async" && u.isWord "function" && !u.afterLineEnd then
      functionLike self .free true
    else if t.isWord "class" then classLike self .free
    else if constants.any (t.isWord ·) then node .constant bump
    else if t.isName then valueName
    else fail .expressionExpected
  | .punctuator =>
    if t.isPunctuator "(" then parenthesized self
    else if t.isPunctuator "[" then arrayLiteral self
    else if t.isPunctuator "\x7b" then objectLiteral self
    else if t.isPunctuator "/" || t.isPunctuator "/=" then
      recutAfterTrivia regexpLexeme
      match (← peek).kind with
      | .regexp => node .constant bump
      | _ => if ← markup then failLexical .expressionExpected else
        fail .expressionExpected
    else if t.isPunctuator "<" && (← markup) then final (self .element)
    else if t.isPunctuator "#" then
      bump
      fail .nameExpected
    else fail .expressionExpected
  | _ => if ← markup then failLexical .expressionExpected else fail .expressionExpected

/-- The arguments of a call in parentheses, commas and all. -/
def arguments : Parser Unit := do
  expect "("
  within Setting.inBrackets (listUntil ")" (spreadable self))

/-- Holds of chains that have a `?.` before their end. -/
def isOptionalChain : Tree → Bool
  | .node .optional _ => true
  | .node .nonNull (t :: _) => isOptionalChain t
  | _ => false

/-- The kind of a property, which depends on the chain before it. -/
def chainKind (kind : Kind) : Parser Kind := do
  return if (← last?).any isOptionalChain then .optional else kind

/-- Type arguments after a value, if what follows them does not show that the
angle bracket compares. -/
def typeArguments? : Parser Bool := do
  if !(← types) || !((← sees "<") || (← sees "<<")) then return false
  let given ← attempt do
    typeArguments self
    let t ← peek
    -- in `a < b > c` the brackets compare, in `a<b>(c)` and `a<b>;` they hold
    -- types
    let fits := match t.kind with
      | .template _ => true
      | .punctuator => t.isPunctuator "(" || startsNoOperand t || t.afterLineEnd
      | _ => startsNoOperand t || t.afterLineEnd
    unless fits do fail .expressionExpected
  return given.isSome

/-- Puts what stands in the frame together into a call, unless the callee is an
optional chain. -/
def closeCall (kind : Kind) : Parser Unit :=
  match kind with
  | .optional => wrap .optional
  | _ => wrapCall

/-- A property by name, or a private one. -/
def memberName : Parser Unit := do
  if (← peek).kind == .privateName then bump else anyWord

/-- What may follow a value and make a property of it: the answer is whether
something did. -/
def memberSuffix : Parser Bool := do
  let t ← peek
  if t.isPunctuator "." then
    let kind ← chainKind .member
    bump
    memberName
    wrap kind
    return true
  else if t.isPunctuator "[" then
    let kind ← chainKind .index
    bump
    within Setting.inBrackets (self .expression)
    expect "]"
    wrap kind
    return true
  else if t.isPunctuator "!" && !t.afterLineEnd && (← types) then
    bump
    wrap .nonNull
    return true
  else match t.kind with
    | .template _ =>
      templateLiteral self
      wrap .phrase
      return true
    | _ => return false

/-- What may follow a `?.`. -/
def optionalSuffix : Parser Unit := do
  let t ← peek
  if t.isPunctuator "(" then arguments self
  else if t.isPunctuator "[" then
    bump
    within Setting.inBrackets (self .expression)
    expect "]"
  else if t.isPunctuator "<" && (← types) then
    typeArguments self
    arguments self
  else memberName
  wrap .optional

/-- What may follow a value and make a property or a call of it. -/
def suffix : Parser Bool := do
  if ← take "?." then
    optionalSuffix self
    return true
  else if ← sees "(" then
    let kind ← chainKind .phrase
    arguments self
    closeCall kind
    return true
  else if ← memberSuffix self then return true
  else
    let kind ← chainKind .phrase
    if ← typeArguments? self then
      if ← sees "(" then
        arguments self
        closeCall kind
      else wrap .phrase
      return true
    else return false

/-- The superclass: its constructor, called, or one of its properties. -/
def superOperand : Parser Unit := node .phrase do
  bump
  if ← sees "(" then arguments self
  else if ← take "." then memberName
  else
    expect "["
    within Setting.inBrackets (self .expression)
    expect "]"

/-- An import as an expression: of a module, or of what is known about this
one. -/
def importOperand : Parser Unit := node .phrase do
  bump
  if ← take "." then
    let t ← peek
    anyWord
    unless t.isWord "meta" do
      unless ← sees "(" do fail (.unexpected t.shown "meta")
      arguments self
  else arguments self

/-- A new object from `new` on. -/
def construct : Parser Unit := node .phrase do
  bump
  if ← take "." then
    unless ← takeWord "target" do failUnexpected "target"
  else
    frame do
      let t ← peek
      if t.isWord "new" then self .construct
      else if t.isWord "super" then superOperand self
      else if t.isWord "import" then importOperand self
      else primary self
      iterate (memberSuffix self)
    let _ ← typeArguments? self
    if ← sees "(" then arguments self

/-- An operand with its properties and calls. -/
def leftHand : Parser Unit := frame do
  let t ← peek
  if t.isWord "new" then self .construct
  else if t.isWord "super" then superOperand self
  else if t.isWord "import" then importOperand self
  else primary self
  iterate (suffix self)

/-! ### Operators -/

/-- Holds of names. -/
def isName : Tree → Bool
  | .leaf t => t.isName
  | _ => false

/-- Holds of what a value can be put into. -/
def isTarget : Tree → Bool
  | .leaf t => t.isName
  | .node .member _ => true
  | .node .index _ => true
  | .node .paren [_, t, _] => isTarget t
  | .node .nonNull (t :: _) => isTarget t
  | .node .assertion _ => true
  | .node .phrase (.leaf t :: _) => t.isWord "super"
  | _ => false

/-- Holds of what the values of a composite can be put into. -/
def isPatternTarget : Tree → Bool
  | .node .object _ => true
  | .node .array _ => true
  | t => isTarget t

/-- Notes a fault unless the last tree can be assigned to. -/
def checkTarget (place : List Char) (p : Tree → Bool) : Parser Unit := do
  unless (← last?).any p do noteAt place .assignmentTarget

/-- An operand with `++` or `--` after it. -/
def postfixed : Parser Unit := frame do
  let place ← here
  self .leftHand
  if (← seesOnLine "++") || (← seesOnLine "--") then
    checkTarget place isTarget
    bump
    wrap .phrase

/-- Operators before an operand. -/
def unaryOperators : List String := ["+", "-", "~", "!"]

/-- Words before an operand. -/
def unaryWords : List String := ["delete", "void", "typeof"]

/-- Waits for a value. -/
def awaitExpression : Parser Unit := node .phrase do
  unless (← setting).awaits do note .awaitOutside
  bump
  self .unary

/-- An operand with the operators before it.  What is wrong with the operand of
a sign or a word is noted, and reading goes on where it stopped. -/
def unary : Parser Unit := do
  let t ← peek
  let u ← peekSecond
  if unaryOperators.any (t.isPunctuator ·) || unaryWords.any (t.isWord ·) then
    node .phrase do
      bump
      let place ← here
      recover (fun _ stop _ => some stop.mishap) (self .unary)
      if t.isWord "delete" && (← last?).any isName then noteAt place .deletedName
  else if t.isPunctuator "++" || t.isPunctuator "--" then
    node .phrase do
      bump
      let place ← here
      self .unary
      checkTarget place isTarget
  else if t.isWord "await" &&
    ((← setting).awaits || !(startsNoOperand u || u.afterLineEnd)) then
    awaitExpression self
  else if t.isPunctuator "<" && (← types) && !(← markup) then
    node .assertion do
      expectLess
      unless ← takeWord "const" do self .type
      expectGreater
      self .unary
  else postfixed self

/-- Operators between two operands. -/
def binaryOperators : List String :=
  ["||", "&&", "??", "|", "^", "&", "==", "!=", "===", "!==", "<", ">", "<=",
    ">=", "<<", ">>", ">>>", "+", "-", "*", "/", "%", "**"]

/-- Holds of operators between two operands. -/
def isBinary (c : Setting) (t : Token) : Bool :=
  binaryOperators.any (t.isPunctuator ·) || t.isWord "instanceof" ||
  (t.isWord "in" && c.allowIn)

/-- An operator with its right operand; the answer is whether there is one. -/
def binaryRest : Parser Bool := do
  let t ← peek
  if isBinary (← setting) t then
    bump
    self .unary
    wrap .phrase
    return true
  else if (t.isWord "as" || t.isWord "satisfies") && !t.afterLineEnd && (← types) then
    bump
    unless ← takeWord "const" do self .type
    wrap .assertion
    return true
  else return false

/-- A missing operand in front of an operator. -/
def missingOperand (c : Setting) (stop : Stop) (t : Token) : Option Mishap :=
  if isBinary c t then stop.left.map fun left => ⟨.expressionExpected, left⟩ else none

/-- Operands with operators between them, and possibly a choice that depends on
them.  Reading also goes on where the first operand stops in front of an
operator. -/
def conditional : Parser Unit := frame do
  recover missingOperand (self .unary)
  iterate (binaryRest self)
  if ← take "?" then
    within (fun c => { c with allowIn := true, colonDue := true }) (self .assignment)
    expect ":"
    self .assignment
    wrap .phrase

/-- Operators that assign. -/
def assignmentOperators : List String :=
  ["=", "+=", "-=", "*=", "/=", "%=", "**=", "<<=", ">>=", ">>>=", "&=", "|=",
    "^=", "&&=", "||=", "??="]

/-- Hands a value out of a generator. -/
def yieldExpression : Parser Unit := node .phrase do
  bump
  if ← seesOnLine "*" then
    bump
    self .assignment
  else
    let t ← peek
    unless startsNoOperand t || t.afterLineEnd do self .assignment

/-- An expression without commas. -/
def assignment : Parser Unit := do
  if ← arrowFunction? self then return
  if (← setting).yields && (← seesWord "yield") then yieldExpression self
  else frame do
    let place ← here
    conditional self
    let t ← peek
    if assignmentOperators.any (t.isPunctuator ·) then
      checkTarget place (if t.isPunctuator "=" then isPatternTarget else isTarget)
      bump
      self .assignment
      wrap .phrase

/-- An expression. -/
def expression : Parser Unit := frame do
  self .assignment
  if ← sees "," then
    iterate do
      if ← take "," then
        self .assignment
        return true
      else return false
    wrap .phrase

end AnimLint.Script.Grammar
