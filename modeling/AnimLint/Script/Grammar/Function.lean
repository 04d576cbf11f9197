/-
AnimLint/Script/Grammar/Function.lean

Functions and classes.  A parenthesis may open the parameters of an arrow
function or an expression; the head of an arrow function is tried first, and
once its arrow is reached there is no way back.

Main definitions: `block`, `functionTail`, `functionLike`, `arrowFunction?`,
`classLike`.
-/
import AnimLint.Script.Grammar.Type

namespace AnimLint.Script.Grammar

open Script.Parser

variable (self : Self)

/-! ### Bodies -/

/-- Statements in braces. -/
def block : Parser Unit := node .phrase do
  expect "\x7b"
  iterate do
    if ← take "\x7d" then return false
    if ← seesEnd then failExpected "\x7d"
    self .statement
    return true

/-- The body of a function. -/
def functionBody (awaits yields : Bool) : Parser Unit :=
  within (·.inBody awaits yields) (block self)

/-- The parameters, the return type and the body of a function.  Where
annotations are part of the language the body may be missing; the answer is
whether there is one. -/
def functionTail (awaits yields : Bool) : Parser Bool := do
  typeParameters? self
  within (fun c => { c with awaits := awaits, yields := yields }) (parameters self)
  returnAnnotation? self
  if (← types) && !(← sees "\x7b") then
    statementEnd
    return false
  else
    functionBody self awaits yields
    return true

/-- Whether a declaration needs a name. -/
inductive Naming
  | required
  | free
deriving DecidableEq

/-- A function from its keyword on.  Only a declaration may lack a body. -/
def functionLike (naming : Naming) (isValue : Bool) : Parser Unit := node .phrase do
  let awaits ← takeWord "async"
  expectWord "function"
  let yields ← take "*"
  if (← seesName) || naming == .required then declaredName
  let hasBody ← functionTail self awaits yields
  if isValue && !hasBody then failUnexpected "\x7b"

/-! ### Arrow functions -/

/-- The body of an arrow function: statements in braces or an expression. -/
def arrowBody (awaits : Bool) : Parser Unit := do
  if ← sees "\x7b" then functionBody self awaits false
  else within (fun c => { c with awaits := awaits, yields := false }) (self .assignment)

/-- The head of an arrow function with its parameters in parentheses. -/
def arrowHead (isAsync withReturnType : Bool) : Parser Unit := do
  if isAsync then expectWord "async"
  typeParameters? self
  within (fun c => { c with awaits := isAsync }) (parameters self)
  if withReturnType then
    expect ":"
    returnType self
  unless ← seesOnLine "=>" do fail .expressionExpected
  expect "=>"

/-- An arrow function with its parameters in parentheses, if there is one.
Where a colon is due, one that opens a return type is taken for that only if
another colon follows the function. -/
def parenthesizedArrow? (isAsync : Bool) : Parser Bool := frame do
  if (← attempt (arrowHead self isAsync false)).isSome then
    arrowBody self isAsync
    wrap .arrow
    return true
  else if !(← types) then return false
  -- in `c ? (a) : b => d` the first colon may belong to the choice
  else if (← setting).colonDue then
    let arrow ← attempt do
      arrowHead self isAsync true
      arrowBody self isAsync
      unless ← sees ":" do fail .expressionExpected
      wrap .arrow
    return arrow.isSome
  else if (← attempt (arrowHead self isAsync true)).isSome then
    arrowBody self isAsync
    wrap .arrow
    return true
  else return false

/-- Whether a parenthesis can open parameters, by the two tokens after it. -/
def opensParameters (first second : Token) : Bool :=
  [")", "...", "\x7b", "["].any (fun p => first.isPunctuator p) ||
    ((first.isName || first.isWord "this") &&
      [",", ")", "=", ":", "?"].any fun p => second.isPunctuator p)

/-- An arrow function, if there is one. -/
def arrowFunction? : Parser Bool := do
  let t ← peek
  let u ← peekSecond
  let v ← peekThird
  if t.isPunctuator "(" then
    if opensParameters u v then parenthesizedArrow? self false else return false
  else if t.isPunctuator "<" then
    if (← types) && (!(← markup) || v.isPunctuator "," || v.isWord "extends" ||
      u.isWord "const")
    then parenthesizedArrow? self false
    else return false
  else if t.isName && u.isPunctuator "=>" && !u.afterLineEnd then
    node .arrow do
      bump
      bump
      arrowBody self false
    return true
  else if t.isWord "async" && !u.afterLineEnd then
    if u.isName && v.isPunctuator "=>" && !v.afterLineEnd then
      node .arrow do
        bump
        bump
        bump
        arrowBody self true
      return true
    else if u.isPunctuator "(" || (u.isPunctuator "<" && (← types)) then
      parenthesizedArrow? self true
    else return false
  else return false

/-! ### Classes -/

/-- Words that may stand before the name of a member. -/
def memberModifiers : List String :=
  ["declare", "public", "private", "protected", "readonly", "abstract",
    "override", "accessor"]

/-- The modifiers of a member; the answer is whether it belongs to the class
itself. -/
def modifiers : Parser Bool := do
  let typed ← types
  iterate do
    let t ← peek
    let u ← peekSecond
    if endsName u then return false
    if t.isWord "static" && !u.isPunctuator "\x7b" then
      bump
      return true
    if typed && memberModifiers.any (t.isWord ·) && !u.afterLineEnd then
      bump
      return true
    return false
  anyDone fun
    | .leaf t => t.isWord "static"
    | _ => false

/-- The key of a member, which may be private. -/
def memberKey : Parser Unit := do
  if (← peek).kind == .privateName then bump else propertyKey self

/-- The end of a property of a class. -/
def propertyEnd : Parser Unit := do
  unless ← takeStatementEnd do note .semicolon

/-- A method from its parameters on; the first constructor with a body is marked
as such. -/
def methodTail (awaits yields mayConstruct : Bool) : Parser Unit := do
  let t ← last?
  let named := match t with
    | some (.leaf t) => t.isWord "constructor" || t.text == "\"constructor\"".toList ||
        t.text == "'constructor'".toList
    | _ => false
  let hasBody ← functionTail self awaits yields
  if hasBody && named && mayConstruct then wrap .constructorMethod else wrap .phrase

/-- A property of a class from after its name on. -/
def fieldTail : Parser Unit := do
  annotation? self
  if ← take "=" then within Setting.inBrackets (self .assignment)
  propertyEnd
  wrap .phrase

/-- A member of a class. -/
def classMember : Parser Unit := frame do
  let isStatic ← modifiers
  let t ← peek
  let u ← peekSecond
  if t.isWord "static" && u.isPunctuator "\x7b" then
    bump
    within (fun c => { c.inBody false false with inFunction := false }) (block self)
    wrap .phrase
  else if (t.isWord "get" || t.isWord "set") && !endsName u then
    bump
    memberKey self
    methodTail self false false false
  else if t.isWord "async" && !endsName u && !u.afterLineEnd then
    bump
    let yields ← take "*"
    memberKey self
    methodTail self true yields false
  else if ← take "*" then
    memberKey self
    methodTail self false true false
  else
    let head ← attempt do
      unless ← types do fail .expressionExpected
      indexHead self
    if head.isSome then fieldTail self
    else
      memberKey self
      if ← types then
        unless ← take "?" do
          let _ ← take "!"
      if (← sees "(") || ((← types) && (← sees "<")) then
        methodTail self false false !isStatic
      else fieldTail self

/-- The members of a class in braces. -/
def classBody : Parser Unit := node .phrase do
  expect "\x7b"
  iterate do
    if ← take "\x7d" then return false
    if ← take ";" then return true
    if ← seesEnd then failExpected "\x7d"
    let isConstructor : Tree → Bool
      | .node .constructorMethod _ => true
      | _ => false
    -- a signature without a body is no constructor, so the tree decides and not
    -- the name
    let hadConstructor ← anyDone isConstructor
    let place ← here
    classMember self
    if hadConstructor && (← last?).any isConstructor then noteAt place .secondConstructor
    return true

/-- A class from its keyword on. -/
def classLike (naming : Naming) : Parser Unit := node .classLike do
  expectWord "class"
  if naming == .required ||
    ((← seesName) && !((← types) && (← seesWord "implements"))) then
    declaredName
  typeParameters? self
  if ← takeWord "extends" then
    self .leftHand
    if (← types) && (← sees "<") then typeArguments self
  if (← types) && (← takeWord "implements") then
    iterate do
      self .type
      take ","
  classBody self

end AnimLint.Script.Grammar
