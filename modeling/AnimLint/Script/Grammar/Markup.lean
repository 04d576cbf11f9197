/-
AnimLint/Script/Grammar/Markup.lean

Tags as expressions.  Between tags text stands for itself, blanks and all, up to
the next tag or brace; in a tag names may hold hyphens and strings may run over
lines.

Main definition: `element`.
-/
import AnimLint.Script.Grammar.Type

namespace AnimLint.Script.Grammar

open Script.Parser

variable (self : Self)

/-! ### Tokens -/

/-- Text between tags, or the character that ends it. -/
def markupLexeme (s : List Char) : TokenKind × Nat :=
  match s with
  | [] => (.endOfText, 0)
  | c :: _ =>
    if c == '<' || c == '\x7b' then (.punctuator, 1)
    else (.markupText, countWhile (fun c => !(c == '<' || c == '\x7b')) s)

/-- A name in a tag. -/
def tagNameLexeme (s : List Char) : TokenKind × Nat :=
  match s with
  | c :: _ =>
    if Text.isIdentStart c then
      (.word, countWhile (fun c => c == '-' || Text.isIdentPart c) s)
    else lexeme s
  | [] => lexeme s

theorem calm_tagNameLexeme {s : List Char} (h : Calm s) :
    Calm (s.drop (tagNameLexeme s).2) := by
  unfold tagNameLexeme
  split
  · split
    · have hquote : ('"' == '-' || Text.isIdentPart '"') = false := by decide
      exact h.drop_countWhile (p := fun c => c == '-' || Text.isIdentPart c) hquote
    · exact h.drop_lexeme
  · exact h.drop_lexeme

/-- A string in a tag, which ends at its quote and nowhere else. -/
def tagStringLexeme (s : List Char) : TokenKind × Nat :=
  match s with
  | c :: r =>
    if c == '"' || c == '\'' then
      let n := countWhile (· != c) r
      match r.drop n with
      | [] => (.fault .unterminatedString, 0)
      | _ :: _ => (.string, n + 2)
    else lexeme s
  | [] => lexeme s

/-! ### Names and attributes -/

/-- A part of a name in a tag; the answer is its text. -/
def tagNamePart : Parser (List Char) := do
  recut tagNameLexeme calm_tagNameLexeme
  let t ← peek
  if t.kind == .word then
    bump
    return t.text
  else failLexical (.unexpected t.shown "jsx identifier")

/-- A name in a tag, with points or a colon; the answer is its text. -/
def tagName : Parser (List Char) := do
  let first ← tagNamePart
  if ← take ":" then return first ++ ':' :: (← tagNamePart)
  else if ← take "." then
    let second ← tagNamePart
    if ← take "." then
      let third ← tagNamePart
      if ← take "." then return first ++ '.' ::
        (second ++ '.' :: (third ++ '.' :: (← tagNamePart)))
      else return first ++ '.' :: (second ++ '.' :: third)
    else return first ++ '.' :: second
  else return first

/-- An expression in braces. -/
def container : Parser Unit := node .phrase do
  expect "\x7b"
  let _ ← take "..."
  within Setting.inBrackets (self .expression)
  expect "\x7d"

/-- An attribute of a tag. -/
def tagAttribute : Parser Unit := node .phrase do
  if ← sees "\x7b" then container self
  else
    let _ ← tagNamePart
    if ← take ":" then
      let _ ← tagNamePart
    if ← take "=" then
      recutAfterTrivia tagStringLexeme
      let t ← peek
      if t.kind == .string then bump
      else if t.isPunctuator "\x7b" then container self
      else if t.isPunctuator "<" then self .element
      else failLexical (.unexpected t.shown "string literal or an expression")

/-! ### Elements -/

/-- Notes the first character in a text between tags that should not stand
there. -/
def noteStray (rest : List Char) (text : List Char) : Parser Unit := do
  match text.find? fun c => c == '>' || c == '\x7d' with
  | none => return
  | some c =>
    let place := rest.drop (countWhile (fun c => !(c == '>' || c == '\x7d')) text)
    if c == '>' then noteAt place (.strayInMarkup "\x7b'>'\x7d" "&gt;")
    else noteAt place (.strayInMarkup "\x7b'\x7d'\x7d" "&rbrace;")

/-- One thing between tags; the answer is whether more may follow. -/
def child : Parser Bool := do
  recutRaw markupLexeme
  let t ← peek
  if t.kind == .markupText then
    noteStray (← here) t.text
    bump
    return true
  else if ← take "\x7b" then
    let _ ← take "..."
    unless ← sees "\x7d" do within Setting.inBrackets (self .expression)
    take "\x7d"
  else if t.isPunctuator "<" then
    if (← peekSecond).isPunctuator "/" then return false
    else
      self .element
      return true
  else return false

/-- What stands between an opening tag and its closing tag, and that. -/
def elementRest (opening : Option (List Char)) : Parser Unit := do
  iterate (child self)
  if (← sees "<") && (← peekSecond).isPunctuator "/" then
    bump
    bump
  else failExpected "</"
  let place ← here
  let closing ← if (← peek).text.head? == some '>' then Pure.pure none else
      some <$> tagName
  unless closing == opening do
    match opening with
    | some name => failAt place (.closingTag (String.ofList name))
    | none => failAt place .closingFragment
  expectGreater

/-- An element or a fragment, from its `<` on. -/
def element : Parser Unit := node .phrase do
  expectLess
  if (← peek).text.head? == some '>' then
    expectGreater
    elementRest self none
  else
    let name ← tagName
    if (← types) && (← sees "<") then typeArguments self
    iterate do
      let t ← peek
      if t.kind == .punctuator &&
        (t.text.head? == some '>' || t.isPunctuator "/") then return false
      tagAttribute self
      return true
    if ← take "/" then expectGreater
    else
      expectGreater
      elementRest self (some name)

end AnimLint.Script.Grammar
