/-
AnimLint/Script/Token.lean

The smallest parts of a script.  A token carries the blanks and comments in
front of it, so that a row of tokens spells the text it was read from, character
for character.

Main definitions: `Trivia`, `Token`, `Token.source`.
-/
import AnimLint.Script.Fault

namespace AnimLint.Script

/-! ### Between tokens -/

/-- What stands between two tokens. -/
inductive TriviaKind
  | blank
  | lineComment
  | blockComment
  /-- The line that names an interpreter, at the very start of a text. -/
  | interpreter
deriving DecidableEq, Repr

/-- A stretch of blanks or one comment. -/
structure Trivia where
  kind : TriviaKind
  text : List Char
deriving DecidableEq, Repr

/-- The text of a row of trivia. -/
def triviaText : List Trivia → List Char
  | [] => []
  | t :: r => t.text ++ triviaText r

/-- Holds of the characters that end a line. -/
def isLineEnd (c : Char) : Bool :=
  c == '\n' || c == '\r' || c.toNat == 0x2028 || c.toNat == 0x2029

/-! ### Tokens -/

/-- What a token is. -/
inductive TokenKind
  /-- A name or a keyword. -/
  | word
  | privateName
  | number
  | string
  /-- A piece of a template literal, up to the end of the template or up to the
  next `$` with its brace. -/
  | template (isLast : Bool)
  | regexp
  | punctuator
  /-- Text between tags. -/
  | markupText
  | endOfText
  /-- No token; the fault lies at the end of the text that was taken. -/
  | fault (cause : Fault)
deriving DecidableEq, Repr

/-- A token with the trivia in front of it. -/
structure Token where
  trivia : List Trivia
  kind : TokenKind
  text : List Char
deriving DecidableEq, Repr

namespace Token

/-- The text of a token and of what stands in front of it. -/
def source (t : Token) : List Char := triviaText t.trivia ++ t.text

/-- Holds if a line ends somewhere in front of the token. -/
def afterLineEnd (t : Token) : Bool := t.trivia.any fun p => p.text.any isLineEnd

/-- Holds of the punctuator with the given spelling. -/
def isPunctuator (t : Token) (spelling : String) : Bool :=
  t.kind == .punctuator && t.text == spelling.toList

/-- Holds of the word with the given spelling. -/
def isWord (t : Token) (spelling : String) : Bool :=
  t.kind == .word && t.text == spelling.toList

/-- Words that are never names. -/
def keywords : List String :=
  ["break", "case", "catch", "class", "const", "continue", "debugger",
    "default", "delete", "do", "else", "enum", "export", "extends", "false",
    "finally", "for", "function", "if", "import", "in", "instanceof", "new",
    "null", "return", "super", "switch", "this", "throw", "true", "try",
    "typeof", "var", "void", "while", "with"]

/-- Words that are names in some places and structure in others. -/
def contextualWords : List String :=
  ["abstract", "accessor", "any", "as", "assert", "asserts", "async", "await",
    "bigint", "boolean", "constructor", "declare", "from", "get", "global",
    "implements", "infer", "interface", "intrinsic", "is", "keyof", "let",
    "module", "namespace", "never", "number", "object", "of", "out", "override",
    "package", "private", "protected", "public", "readonly", "require",
    "satisfies", "set", "static", "string", "symbol", "target", "type",
    "undefined", "unique", "unknown", "using", "yield"]

/-- Holds of words that are never names. -/
def isKeyword (t : Token) : Bool :=
  t.kind == .word && keywords.any fun w => t.text == w.toList

/-- Holds of words that may name something. -/
def isName (t : Token) : Bool := t.kind == .word && !t.isKeyword

/-- How a token is named in a message. -/
def shown (t : Token) : String :=
  match t.kind with
  | .word =>
    if t.isKeyword || contextualWords.any fun w =>
      t.text == w.toList then String.ofList t.text
    else "ident"
  | .privateName => "#"
  | .number => if t.text.getLast? == some 'n' then "bigint literal" else "numeric literal"
  | .string => "string literal"
  | .template _ => "template token"
  | .regexp => "regexp literal"
  | .punctuator => String.ofList t.text
  | .markupText => "jsx text"
  | .endOfText => "<eof>"
  | .fault _ => "<lexing error>"

end Token

end AnimLint.Script
