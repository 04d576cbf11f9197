/-
AnimLint/Script/Fault.lean

What can be wrong with a script, as causes.  The words for each cause are in one
place, `Fault.message`.
-/

namespace AnimLint.Script

/-- A cause for which a text is not a script. -/
inductive Fault
  /-- A token stands where an expression has to start. -/
  | expressionExpected
  /-- One token was due and another stands there. -/
  | expected (due found : String)
  /-- Something of a kind was due and another token stands there. -/
  | unexpected (found due : String)
  /-- An expression is followed on its line by something that does not continue
  it. -/
  | statementEnd
  /-- A declaration is followed on its line by something that does not continue
  it. -/
  | semicolon
  /-- A name was due. -/
  | nameExpected
  /-- A backslash in a name opens no escape. -/
  | unicodeEscape
  /-- A number runs into a name. -/
  | nameAfterNumber
  | unterminatedString
  | unterminatedTemplate
  | unterminatedRegexp
  | unterminatedComment
  /-- A character that no token starts with. -/
  | strayCharacter (c : Char)
  /-- A character that has to be written as an entity between tags. -/
  | strayInMarkup (literal entity : String)
  /-- A closing tag does not fit the opening one. -/
  | closingTag (name : String)
  /-- A fragment is closed by the tag of an element. -/
  | closingFragment
  | constWithoutValue
  | patternWithoutValue
  | returnOutside
  | breakOutside
  | continueOutside
  /-- A jump names a label that encloses it nowhere. -/
  | unknownLabel
  | secondConstructor
  /-- What is assigned to cannot hold a value. -/
  | assignmentTarget
  /-- A function that is not asynchronous waits for a value. -/
  | awaitOutside
  /-- A word that modules reserve is used as a name. -/
  | reservedName (name : String)
  /-- The word that waits for a value is used as a name. -/
  | awaitName
  /-- A name that modules keep for themselves is bound. -/
  | fixedName
  /-- A number or an escape in base eight is written as it was before
  modules. -/
  | legacyOctal
  /-- A decimal number starts with a zero. -/
  | legacyDecimal
  /-- A name is deleted rather than a property. -/
  | deletedName
  /-- A line ends between `throw` and its value. -/
  | throwLineEnd
  /-- A `with` statement, which modules do not have. -/
  | withStatement (typed : Bool)
  /-- An import or export stands inside something else. -/
  | nestedModuleItem
  /-- The text nests deeper than its length allows, which no text does. -/
  | tooDeep
deriving DecidableEq, Repr

/-- The words for a cause. -/
def Fault.message : Fault → String
  | expressionExpected => "Expression expected"
  | expected due found => "Expected '" ++ due ++ "', got '" ++ found ++ "'"
  | unexpected found due => "Unexpected token `" ++ found ++ "`. Expected " ++ due
  | statementEnd => "Expected ';', '\x7d' or <eof>"
  | semicolon => "Expected a semicolon"
  | nameExpected => "Expected ident"
  | unicodeEscape => "Expected unicode escape"
  | nameAfterNumber => "Identifier cannot follow number"
  | unterminatedString => "Unterminated string constant"
  | unterminatedTemplate => "Unterminated template"
  | unterminatedRegexp => "Unterminated regexp literal"
  | unterminatedComment => "Unterminated block comment"
  | strayCharacter c => "Unexpected character '" ++ c.toString ++ "'"
  | strayInMarkup literal entity =>
    "Unexpected token. Did you mean `" ++ literal ++ "` or `" ++ entity ++ "`?"
  | closingTag name => "Expected corresponding JSX closing tag for <" ++ name ++ ">"
  | closingFragment => "Expected corresponding closing tag for JSX fragment"
  | constWithoutValue => "'const' declarations must be initialized"
  | patternWithoutValue => "Destructuring bindings require initializers"
  | returnOutside => "Return statement is not allowed here"
  | breakOutside =>
    "A 'break' statement can only be used within an enclosing iteration or switch statement"
  | continueOutside =>
    "A 'continue' statement can only be used within an enclosing iteration statement"
  | unknownLabel =>
    "A 'break' statement can only jump to a label of an enclosing statement"
  | secondConstructor => "A class can only have one constructor"
  | assignmentTarget => "Invalid assignment target"
  | awaitOutside => "await isn't allowed in non-async function"
  | reservedName name => "`" ++ name ++ "` cannot be used as an identifier in strict mode"
  | awaitName => "`await` cannot be used as an identifier in an async context"
  | fixedName =>
    "'eval' and 'arguments' cannot be used as a binding identifier in strict mode"
  | legacyOctal => "Legacy octal escape is not permitted in strict mode"
  | legacyDecimal => "Legacy decimal escape is not permitted in strict mode"
  | deletedName => "`delete` cannot be called on an identifier in strict mode"
  | throwLineEnd => "LineBreak cannot follow 'throw'"
  | withStatement false => "With statement are not allowed in strict mode"
  | withStatement true =>
    "The 'with' statement is not supported. All symbols in a 'with' block will have type 'any'."
  | nestedModuleItem => "'import', and 'export' cannot be used outside of module code"
  | tooDeep => "Nesting too deep"

end AnimLint.Script
