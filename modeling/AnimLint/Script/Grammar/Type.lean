/-
AnimLint/Script/Grammar/Type.lean

Type annotations.  They hold no calls that are looked at, so that their grammar
serves to find where they end.  Where an angle bracket may open type arguments
or compare two values, the former is tried and given up if what follows does not
fit.

Main definitions: `type`, `typeArguments`, `typeParameters`, `parameters`,
`returnType`.
-/
import AnimLint.Script.Grammar.Pattern

namespace AnimLint.Script.Grammar

open Script.Parser

variable (self : Self)

/-! ### Parameters and arguments -/

/-- A colon and a type. -/
def annotation : Parser Unit := do
  expect ":"
  self .type

/-- A colon and a type, where annotations are part of the language. -/
def annotation? : Parser Unit := do
  if (← types) && (← sees ":") then annotation self

/-- A type parameter with its bound and default. -/
def typeParameter : Parser Unit := do
  iterate do
    let t ← peek
    let u ← peekSecond
    if (t.isWord "const" || t.isWord "in" || t.isWord "out") && u.kind == .word &&
        !u.isWord "extends" then
      bump
      return true
    else return false
  name
  if ← takeWord "extends" then self .type
  if ← take "=" then self .type

/-- Type parameters in angle brackets. -/
def typeParameters : Parser Unit := node .phrase do
  expectLess
  iterate do
    within Setting.inBrackets (typeParameter self)
    if ← take "," then return !(← peek).isPunctuator ">" else return false
  expectGreater

/-- Type parameters, where there are any. -/
def typeParameters? : Parser Unit := do
  if (← types) && (← sees "<") then typeParameters self

/-- Type arguments in angle brackets. -/
def typeArguments : Parser Unit := node .typeArguments do
  expectLess
  iterate do
    within Setting.inBrackets (self .type)
    take ","
  expectGreater

/-- One parameter of a function: modifiers, a pattern, a type and a default
value. -/
def parameter : Parser Unit := do
  if ← types then
    iterate do
      let t ← peek
      let u ← peekSecond
      if ["public", "private", "protected", "readonly", "override"].any (t.isWord ·) &&
          (u.kind == .word || u.isPunctuator "[" || u.isPunctuator "\x7b") then
        bump
        return true
      else return false
  let _ ← take "..."
  if (← types) && (← seesWord "this") then bump else self .pattern
  if ← types then
    let _ ← take "?"
  annotation? self
  if ← take "=" then self .assignment

/-- The parameters of a function in parentheses. -/
def parameters : Parser Unit := node .phrase do
  expect "("
  within Setting.inBrackets (listUntil ")" (parameter self))

/-- What a function returns: a type, or what it says of a value. -/
def returnType : Parser Unit := do
  let t ← peek
  let u ← peekSecond
  let v ← peekThird
  let isSubject (t : Token) : Bool := t.isName || t.isWord "this"
  if t.isWord "asserts" && isSubject u && !u.afterLineEnd && !u.isWord "is" then
    bump
    bump
    if ← takeWord "is" then self .type
  else if isSubject t && u.isWord "is" && !u.afterLineEnd && !startsNoOperand v then
    bump
    bump
    self .type
  else self .type

/-- A colon and what a function returns, where annotations are part of the
language. -/
def returnAnnotation? : Parser Unit := do
  if (← types) && (← sees ":") then
    bump
    returnType self

/-! ### Types made of names and literals -/

/-- Words that are types although they are never names. -/
def typeKeywords : List String := ["void", "null", "true", "false", "this"]

/-- A name with points and type arguments. -/
def entityName : Parser Unit := do
  bump
  iterate do
    if (← sees ".") then
      bump
      if (← peek).kind == .privateName then bump else anyWord
      return true
    else return false
  if ← seesOnLine "<" then typeArguments self

/-- The type of a module that is named by its source. -/
def importType : Parser Unit := do
  bump
  expect "("
  self .type
  if ← take "," then
    unless ← sees ")" do within Setting.inBrackets (self .assignment)
  expect ")"
  iterate do
    if ← take "." then
      anyWord
      return true
    else return false
  if ← seesOnLine "<" then typeArguments self

/-- A template whose places hold types. -/
def templateType : Parser Unit := do
  iterate do
    let t ← peek
    bump
    if t.kind == .template true then return false
    within Setting.inBrackets (self .type)
    unless ← sees "\x7d" do failExpected "\x7d"
    recutAfterTrivia templateLexeme
    return true

/-! ### Types in brackets -/

/-- An element of a tuple, possibly with a label. -/
def tupleElement : Parser Unit := do
  let _ ← take "..."
  let t ← peek
  let u ← peekSecond
  let v ← peekThird
  if t.kind == .word && u.isPunctuator ":" then
    bump
    bump
  else if t.kind == .word && u.isPunctuator "?" && v.isPunctuator ":" then
    bump
    bump
    bump
  self .type
  let _ ← take "?"

/-- The rest of a type that makes properties out of the values of another type,
after `in`. -/
def mappedRest : Parser Unit := do
  self .type
  if ← takeWord "as" then self .type
  expect "]"
  unless ← take "+" do
    let _ ← take "-"
  let _ ← take "?"
  if ← sees ":" then annotation self
  unless ← take ";" do
    let _ ← take ","
  expect "\x7d"

/-- The start of such a type. -/
def mappedHead : Parser Unit := do
  expect "\x7b"
  unless ← take "+" do
    let _ ← take "-"
  let _ ← takeWord "readonly"
  expect "["
  name
  expectWord "in"

/-- The brackets of a signature that stands for all keys. -/
def indexHead : Parser Unit := do
  expect "["
  name
  annotation self
  expect "]"

/-- The parameters and the return type of a signature. -/
def signature : Parser Unit := do
  typeParameters? self
  parameters self
  returnAnnotation? self

/-- A member of an object type. -/
def typeMember : Parser Unit := do
  let t ← peek
  let u ← peekSecond
  if t.isPunctuator "(" || t.isPunctuator "<" then signature self
  else if t.isWord "new" && (u.isPunctuator "(" || u.isPunctuator "<") then
    bump
    signature self
  else
    iterate do
      let t ← peek
      let u ← peekSecond
      if ["readonly", "get", "set", "static", "declare"].any (t.isWord ·) &&
        !endsName u then
        bump
        return true
      else return false
    match ← attempt (indexHead self) with
    | some _ => annotation? self
    | none =>
      propertyKey self
      let _ ← take "?"
      if (← sees "(") || (← sees "<") then signature self else annotation? self

/-- The members of an object type in braces. -/
def typeMembers : Parser Unit := do
  expect "\x7b"
  iterate do
    if ← take "\x7d" then return false
    within Setting.inBrackets (typeMember self)
    unless ← take "," do
      unless ← takeStatementEnd do failExpected ";"
    return true

/-- What a type may start with. -/
def typeStarts : String :=
  "an identifier, void, yield, null, await, break, a string literal, a numeric literal, true, " ++
    "false, `, -, import, this, typeof, \x7b, [, ("

/-- An operand of a type. -/
def primaryType : Parser Unit := do
  let t ← peek
  let u ← peekSecond
  match t.kind with
  | .string | .number => bump
  | .template _ => templateType self
  | .word =>
    if t.isWord "typeof" then
      bump
      if ← seesWord "import" then importType self
      else if (← peek).kind == .word then entityName self
      else failLexical .nameExpected
    else if t.isWord "import" then importType self
    else if t.isName || typeKeywords.any (t.isWord ·) then entityName self
    else failLexical .nameExpected
  | .punctuator =>
    if t.isPunctuator "(" then
      bump
      within Setting.inBrackets (self .type)
      expect ")"
    else if t.isPunctuator "[" then
      bump
      within Setting.inBrackets (listUntil "]" (tupleElement self))
    else if t.isPunctuator "\x7b" then
      match ← attempt mappedHead with
      | some _ => within Setting.inBrackets (mappedRest self)
      | none => typeMembers self
    else if t.isPunctuator "-" && u.kind == .number then
      bump
      bump
    else failUnexpected typeStarts
  | _ => failLexical .nameExpected

/-! ### Operators of types -/

/-- An operand of a type with brackets after it. -/
def postfixType : Parser Unit := do
  primaryType self
  iterate do
    if ← seesOnLine "[" then
      bump
      unless ← take "]" do
        within Setting.inBrackets (self .type)
        expect "]"
      return true
    else return false

/-- The bound of an inferred type, unless a condition may and does follow it. -/
def inferBound : Parser Unit := do
  expectWord "extends"
  within (fun c => { c with conditionalTypes := false }) (self .type)
  -- the bound was a condition after all
  if (← setting).conditionalTypes && (← sees "?") then fail .expressionExpected

/-- An operand of a type with words before it. -/
def operatorType : Parser Unit := do
  iterate do
    let t ← peek
    let u ← peekSecond
    if ["keyof", "unique", "readonly"].any (t.isWord ·) &&
        !(startsNoOperand u || endsName u && !u.isPunctuator "(" ||
          u.isPunctuator ">") then
      bump
      return true
    else return false
  let t ← peek
  let u ← peekSecond
  if t.isWord "infer" && u.isName then
    bump
    bump
    if (← seesWord "extends") then
      let _ ← attempt (inferBound self)
  else postfixType self

/-- Operands with a punctuator between them and possibly before the first. -/
def operands (operator : String) (operand : Parser Unit) : Parser Unit := do
  let _ ← take operator
  iterate do
    operand
    take operator

/-- A function type up to its arrow. -/
def functionTypeHead : Parser Unit := do
  typeParameters? self
  parameters self
  expect "=>"

/-- A type that is not conditional. -/
def plainType : Parser Unit := do
  let t ← peek
  let u ← peekSecond
  if t.isWord "new" then
    bump
    functionTypeHead self
    self .type
  else if t.isWord "abstract" && u.isWord "new" then
    bump
    bump
    functionTypeHead self
    self .type
  else if t.isPunctuator "<" then
    functionTypeHead self
    returnType self
  else
    let head ← attempt do
      unless ← sees "(" do fail .expressionExpected
      functionTypeHead self
    if head.isSome then returnType self
    else operands "|" (operands "&" (operatorType self))

/-- A type, possibly with a condition. -/
def type : Parser Unit := node .phrase do
  plainType self
  if (← setting).conditionalTypes && (← seesWord "extends") && !(← peek).afterLineEnd then
    bump
    within (fun c => { c with conditionalTypes := false }) (self .type)
    expect "?"
    self .type
    expect ":"
    self .type

end AnimLint.Script.Grammar
