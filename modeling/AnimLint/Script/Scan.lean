/-
AnimLint/Script/Scan.lean

Reading tokens.  A reader only says what stands at the front of a text and how
many characters it takes; one function then cuts the text there.  So whatever
the readers say, a token and the text after it together are the text that was
read (`read_source`), and what stands in front of a token is blanks and whole
comments (`isPlain_readTrivia`).

Main definitions: `readTrivia`, `lexeme`, `Token.read`.
-/
import AnimLint.Script.Token
import AnimLint.Text.Identifier

namespace AnimLint.Script

open Text

/-! ### Blanks and comments -/

/-- Holds of blanks between tokens: space separators, controls that move on,
line ends and the byte-order mark. -/
def isSpace (c : Char) : Bool :=
  let n := c.toNat
  (9 ≤ n && n ≤ 13) || n == 0x20 ||
    (0x80 ≤ n &&
      (n == 0xA0 || n == 0x1680 || (0x2000 ≤ n && n ≤ 0x200A) || n == 0x2028 ||
        n == 0x2029 ||
        n == 0x202F || n == 0x205F || n == 0x3000 || n == 0xFEFF))

/-- The number of characters at the front of which `p` holds. -/
def countWhile (p : Char → Bool) : List Char → Nat
  | [] => 0
  | c :: r => if p c then countWhile p r + 1 else 0

/-- The length of the rest of a block comment, its end included. -/
def blockCommentLength? : List Char → Option Nat
  | [] => none
  | '*' :: '/' :: _ => some 2
  | _ :: r => (blockCommentLength? r).map (· + 1)

/-- What stands at the front, if it is trivia. -/
def triviaLexeme? : List Char → Option (TriviaKind × Nat)
  | '/' :: '/' :: r => some (.lineComment, 2 + countWhile (!isLineEnd ·) r)
  | '/' :: '*' :: r => (blockCommentLength? r).map fun n => (.blockComment, 2 + n)
  | s =>
    match countWhile isSpace s with
    | 0 => none
    | n + 1 => some (.blank, n + 1)

/-- The kinds and lengths of the trivia at the front, after `skip` characters
that belong to a piece already counted. -/
def triviaLengths (skip : Nat) : List Char → List (TriviaKind × Nat)
  | [] => []
  | c :: r =>
    match skip with
    | k + 1 => triviaLengths k r
    | 0 =>
      match triviaLexeme? (c :: r) with
      | none => []
      | some (kind, n) => (kind, n) :: triviaLengths (n - 1) r

/-- Cuts pieces of given lengths off a text. -/
def cutTrivia : List (TriviaKind × Nat) → List Char → List Trivia × List Char
  | [], s => ([], s)
  | (kind, n) :: more, s =>
    let (trivia, rest) := cutTrivia more (s.drop n)
    (⟨kind, s.take n⟩ :: trivia, rest)

/-- The trivia at the front of a text and the text after it. -/
def readTrivia (s : List Char) : List Trivia × List Char :=
  cutTrivia (triviaLengths 0 s) s

theorem triviaText_cutTrivia (lengths : List (TriviaKind × Nat)) (s : List Char) :
    triviaText (cutTrivia lengths s).1 ++ (cutTrivia lengths s).2 = s := by
  induction lengths generalizing s with
  | nil => simp [cutTrivia, triviaText]
  | cons l more ih => simp [cutTrivia, triviaText, ih (s.drop l.2)]

/-- Holds of trivia that are what they seem: blanks are blank, a line comment
stays on its line, and a block comment ends where it is first closed. -/
def Trivia.isPlain (t : Trivia) : Bool :=
  match t.kind, t.text with
  | .blank, s => !s.isEmpty && s.all isSpace
  | .lineComment, '/' :: '/' :: r => r.all (!isLineEnd ·)
  | .blockComment, '/' :: '*' :: r => blockCommentLength? r == some r.length
  | .interpreter, _ => true
  | _, _ => false

theorem all_take_countWhile (p : Char → Bool) (s : List Char) :
    (s.take (countWhile p s)).all p = true := by
  induction s with
  | nil => rfl
  | cons c r ih => by_cases hc : p c = true <;> simp_all [countWhile]

theorem blockCommentLength?_take {s : List Char} {n : Nat}
    (h : blockCommentLength? s = some n) :
    blockCommentLength? (s.take n) = some (s.take n).length := by
  fun_induction blockCommentLength? s generalizing n with
  | case1 => cases h
  | case2 r =>
    obtain rfl := Option.some.inj h
    rfl
  | case3 c r hc ih =>
    obtain ⟨m, hm, rfl⟩ := Option.map_eq_some_iff.1 h
    have hr := ih hm
    rw [List.take_succ_cons, blockCommentLength?]
    · rw [hr, List.length_cons]
      rfl
    · intro t hstar hslash
      rcases m with - | m
      · cases hslash
      · rcases r with - | ⟨d, r⟩
        · cases hm
        · rw [List.take_succ_cons, List.cons.injEq] at hslash
          exact hc r hstar (by rw [hslash.1])

theorem isPlain_triviaLexeme {s : List Char} {kind : TriviaKind} {n : Nat}
    (h : triviaLexeme? s = some (kind, n)) :
    0 < n ∧ (Trivia.mk kind (s.take n)).isPlain = true := by
  unfold triviaLexeme? at h
  split at h
  · next r =>
    obtain ⟨rfl, rfl⟩ := Prod.mk.inj (Option.some.inj h)
    refine ⟨by omega, ?_⟩
    have := all_take_countWhile (!isLineEnd ·) r
    simpa [Nat.add_comm 2, Trivia.isPlain] using this
  · next r =>
    obtain ⟨m, hm, hpair⟩ := Option.map_eq_some_iff.1 h
    obtain ⟨rfl, rfl⟩ := Prod.mk.inj hpair
    refine ⟨by omega, ?_⟩
    have := blockCommentLength?_take hm
    simp [Nat.add_comm 2, Trivia.isPlain, this]
  · have hall := all_take_countWhile isSpace s
    split at h
    · cases h
    · next m hm =>
      obtain ⟨rfl, rfl⟩ := Prod.mk.inj (Option.some.inj h)
      refine ⟨by omega, ?_⟩
      rcases s with - | ⟨c, r⟩
      · cases hm
      · rw [hm] at hall
        simpa [Trivia.isPlain] using hall

theorem isPlain_cutTrivia (s : List Char) (skip : Nat) :
    (cutTrivia (triviaLengths skip s) (s.drop skip)).1.all Trivia.isPlain = true := by
  induction s generalizing skip with
  | nil => rfl
  | cons c r ih =>
    rcases skip with - | k
    · rw [triviaLengths]
      rcases h : triviaLexeme? (c :: r) with - | ⟨kind, n⟩
      · rfl
      · obtain ⟨hpos, hplain⟩ := isPlain_triviaLexeme h
        obtain ⟨m, rfl⟩ : ∃ m, n = m + 1 := ⟨n - 1, by omega⟩
        have hrest := ih m
        simp only [cutTrivia, List.all_cons, List.drop_zero, hplain, Bool.true_and]
        exact hrest
    · exact ih k

/-- What stands in front of a token is blanks and whole comments. -/
theorem isPlain_readTrivia (s : List Char) : (readTrivia s).1.all Trivia.isPlain = true :=
  isPlain_cutTrivia s 0

/-! ### Names -/

/-- Holds of digits in base sixteen. -/
def isHexDigit (c : Char) : Bool :=
  ('0' ≤ c && c ≤ '9') || ('a' ≤ c && c ≤ 'f') || ('A' ≤ c && c ≤ 'F')

/-- The length of a code point escape after its backslash. -/
def escapeLength? : List Char → Option Nat
  | 'u' :: '\x7b' :: r =>
    match r.drop (countWhile isHexDigit r) with
    | '\x7d' :: _ => some (countWhile isHexDigit r + 3)
    | _ => none
  | 'u' :: a :: b :: c :: d :: _ =>
    if isHexDigit a && isHexDigit b && isHexDigit c && isHexDigit d then some 5 else none
  | _ => none

/-- The length of a name, escapes included, and whether it ends at a backslash
that opens none; `skip` characters of an escape are still to be passed. -/
def nameLength (skip : Nat) : List Char → Nat × Bool
  | [] => (0, false)
  | c :: r =>
    match skip with
    | k + 1 => let (n, bad) := nameLength k r; (n + 1, bad)
    | 0 =>
      if isIdentPart c then let (n, bad) := nameLength 0 r; (n + 1, bad)
      else if c == '\\' then
        match escapeLength? r with
        | some k => let (n, bad) := nameLength k r; (n + 1, bad)
        | none => (0, true)
      else (0, false)

/-- The value of a digit in base sixteen. -/
def hexValue (c : Char) : Nat :=
  if 'a' ≤ c then c.toNat - 87 else if 'A' ≤ c then c.toNat - 55 else c.toNat - 48

/-- The number that digits in base sixteen stand for. -/
def hexNumber (digits : List Char) : Nat :=
  digits.foldl (fun n c => 16 * n + hexValue c) 0

/-- The name that a spelling with escapes stands for; `skip` characters of an
escape are still to be passed. -/
def unescape (skip : Nat) : List Char → List Char
  | [] => []
  | c :: r =>
    match skip with
    | k + 1 => unescape k r
    | 0 =>
      if c == '\\' then
        match escapeLength? r with
        | some k =>
          let digits := ((r.take k).drop 1).filter isHexDigit
          Char.ofNat (hexNumber digits) :: unescape k r
        | none => c :: unescape 0 r
      else c :: unescape 0 r

/-- The name that a word stands for. -/
def Token.name (t : Token) : List Char := unescape 0 t.text

/-! ### Literals -/

/-- Holds of digits. -/
def isDigit (c : Char) : Bool := '0' ≤ c && c ≤ '9'

/-- Holds of digits and of the mark that separates them. -/
def isDigitOrMark (c : Char) : Bool := isDigit c || c == '_'

/-- The length of an exponent. -/
def exponentLength (s : List Char) : Nat :=
  let digits (taken : Nat) (r : List Char) : Nat :=
    match countWhile isDigitOrMark r with
    | 0 => 0
    | n + 1 => taken + n + 1
  match s with
  | e :: sign :: r =>
    if e == 'e' || e == 'E' then
      if sign == '+' || sign == '-' then digits 2 r else digits 1 (sign :: r)
    else 0
  | _ => 0

/-- The length of a decimal number. -/
def decimalLength (s : List Char) : Nat :=
  let whole := countWhile isDigitOrMark s
  match s.drop whole with
  | 'n' :: _ => whole + 1
  | '.' :: r =>
    let fraction := countWhile isDigitOrMark r
    whole + 1 + fraction + exponentLength (r.drop fraction)
  | r => whole + exponentLength r

/-- The length of a number. -/
def numberLength (s : List Char) : Nat :=
  match s with
  | '0' :: base :: r =>
    if base == 'x' || base == 'X' || base == 'o' || base == 'O' || base == 'b' ||
      base == 'B' then
      let digits := countWhile (fun c => isHexDigit c || c == '_') r
      match r.drop digits with
      | 'n' :: _ => digits + 3
      | _ => digits + 2
    else decimalLength s
  | _ => decimalLength s

/-- The length of the rest of a string up to and with its closing quote, if it
closes on its line. -/
def stringLength? (quote : Char) : List Char → Option Nat
  | [] => none
  | '\\' :: '\r' :: '\n' :: r => (stringLength? quote r).map (· + 3)
  | '\\' :: _ :: r => (stringLength? quote r).map (· + 2)
  | c :: r =>
    if c == quote then some 1
    else if c == '\n' || c == '\r' then none
    else (stringLength? quote r).map (· + 1)

/-- The length of the rest of a piece of a template, and whether it ends the
template. -/
def templateLength? : List Char → Option (Nat × Bool)
  | [] => none
  | '\\' :: _ :: r => (templateLength? r).map fun (n, isLast) => (n + 2, isLast)
  | '$' :: '\x7b' :: _ => some (2, false)
  | '`' :: _ => some (1, true)
  | _ :: r => (templateLength? r).map fun (n, isLast) => (n + 1, isLast)

/-- The length of the rest of a regular expression up to and with its closing
slash. -/
def regexpLength? (inClass : Bool) : List Char → Option Nat
  | [] => none
  | '\\' :: c :: r => if isLineEnd c then none else (regexpLength? inClass r).map (· + 2)
  | c :: r =>
    if isLineEnd c then none
    else if c == '/' && !inClass then some 1
    else if c == '[' then (regexpLength? true r).map (· + 1)
    else if c == ']' then (regexpLength? false r).map (· + 1)
    else (regexpLength? inClass r).map (· + 1)

/-! ### Spellings that modules have done away with -/

/-- The fault of a number that starts with a zero and goes on with digits. -/
def legacyNumber? : List Char → Option Fault
  | '0' :: d :: r =>
    if isDigit d then
      some (if (d :: r).any fun c => c == '8' || c == '9' then .legacyDecimal else
        .legacyOctal)
    else none
  | _ => none

/-- Holds of digits in base eight. -/
def isOctalDigit (c : Char) : Bool := '0' ≤ c && c ≤ '7'

/-- The number of characters before the first escape in base eight, if there is
one.  A zero alone is another escape. -/
def legacyEscape? : List Char → Option Nat
  | '\\' :: '0' :: d :: r =>
    if isOctalDigit d then some 0 else (legacyEscape? (d :: r)).map (· + 2)
  | '\\' :: c :: r =>
    if isOctalDigit c && c != '0' then some 0 else (legacyEscape? r).map (· + 2)
  | _ :: r => (legacyEscape? r).map (· + 1)
  | [] => none

/-! ### Tokens -/

/-- Punctuators, each before those it starts with. -/
def punctuators : List String :=
  [">>>=", "...", "===", "!==", "**=", "<<=", ">>=", ">>>", "&&=", "||=", "??=",
    "=>", "==", "!=", "<=", ">=", "&&", "||", "??", "?.", "++", "--", "+=",
    "-=", "*=", "/=", "%=", "&=", "|=", "^=", "<<", ">>", "**", "\x7b", "\x7d",
    "(", ")", "[", "]", ";", ",", "<", ">", "+", "-", "*", "/", "%", "&", "|",
    "^", "!", "~", "?", ":", "=", ".", "@", "#"]

/-- The length of the punctuator at the front.  A question mark, a point and a
digit are a conditional and a number. -/
def punctuatorLength? (s : List Char) : Option Nat :=
  match s with
  | '?' :: '.' :: d :: _ =>
    if isDigit d then some 1 else some 2
  | _ => (punctuators.find? fun p => p.toList.isPrefixOf s).map (·.toList.length)

/-- A name at the front of a text, after `before` characters that belong to
it. -/
def nameLexeme (kind : TokenKind) (before : Nat) (s : List Char) : TokenKind × Nat :=
  match nameLength 0 s with
  | (n, false) => (kind, before + n)
  | (n, true) => (.fault .unicodeEscape, before + n)

/-- A number at the front of a text, which must not run into a name. -/
def numberLexeme (s : List Char) : TokenKind × Nat :=
  let n := numberLength s
  match s.drop n with
  | c :: _ => if isIdentStart c || c == '\\' then (.fault .nameAfterNumber, n)
    else (.number, n)
  | [] => (.number, n)

/-- A piece of a template, from its opening character on. -/
def templateLexeme (s : List Char) : TokenKind × Nat :=
  match templateLength? (s.drop 1) with
  | some (n, isLast) => (.template isLast, n + 1)
  | none => (.fault .unterminatedTemplate, 0)

/-- A regular expression with its flags. -/
def regexpLexeme (s : List Char) : TokenKind × Nat :=
  match regexpLength? false (s.drop 1) with
  | some n => (.regexp, n + 1 + countWhile isIdentPart (s.drop (n + 1)))
  | none => (.fault .unterminatedRegexp, 0)

/-- A punctuator, or a character that starts no token. -/
def punctuatorLexeme (s : List Char) : TokenKind × Nat :=
  match punctuatorLength? s, s with
  | some n, _ => (.punctuator, n)
  | none, c :: _ => (.fault (.strayCharacter c), 0)
  | none, [] => (.endOfText, 0)

/-- What stands at the front of a text after its trivia.  A slash is taken for a
division here; the grammar asks for `regexpLexeme` where an operand is due. -/
def lexeme (s : List Char) : TokenKind × Nat :=
  match s with
  | [] => (.endOfText, 0)
  | '/' :: '*' :: _ => (.fault .unterminatedComment, s.length)
  | '#' :: c :: r =>
    if isIdentStart c || c == '\\' then nameLexeme .privateName 1 (c :: r) else
      (.punctuator, 1)
  | '.' :: d :: r => if isDigit d then numberLexeme s else
    punctuatorLexeme ('.' :: d :: r)
  | c :: r =>
    if isIdentStart c || c == '\\' then nameLexeme .word 0 s
    else if isDigit c then numberLexeme s
    else if c == '"' || c == '\'' then
      match stringLength? c r with
      | some n => (.string, n + 1)
      | none => (.fault .unterminatedString, 0)
    else if c == '`' then templateLexeme s
    else punctuatorLexeme s

/-! ### Cutting -/

/-- Cuts a token off a text, by a reader of what stands at its front. -/
def Token.cut (reader : List Char → TokenKind × Nat) (trivia : List Trivia)
    (s : List Char) :
    Token × List Char :=
  let (kind, n) := reader s
  (⟨trivia, kind, s.take n⟩, s.drop n)

/-- Reads trivia and a token off a text. -/
def Token.read (s : List Char) : Token × List Char :=
  let (trivia, rest) := readTrivia s
  Token.cut lexeme trivia rest

theorem Token.cut_source (reader : List Char → TokenKind × Nat) (trivia : List Trivia)
    (s : List Char) :
    (Token.cut reader trivia s).1.source ++ (Token.cut reader trivia s).2 =
      triviaText trivia ++ s := by
  simp [Token.cut, Token.source]

theorem Token.read_source (s : List Char) :
    (Token.read s).1.source ++ (Token.read s).2 = s := by
  simpa [Token.read, readTrivia, Token.cut_source]
    using triviaText_cutTrivia (triviaLengths 0 s) s

/-- Holds of tokens that are not empty and do not start with a blank. -/
def Token.isSolid (t : Token) : Bool := t.text.head?.any (!isSpace ·)

/-- Holds of solid tokens that follow no interpreter line. -/
def Token.isInner (t : Token) : Bool := t.isSolid && t.trivia.all (·.kind != .interpreter)

/-- Holds of tokens behind blanks and whole comments. -/
def Token.isPlain (t : Token) : Bool := t.trivia.all Trivia.isPlain

theorem Token.isPlain_read (s : List Char) : (Token.read s).1.isPlain = true :=
  isPlain_readTrivia s

end AnimLint.Script
