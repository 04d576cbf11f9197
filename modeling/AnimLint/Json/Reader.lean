/-
AnimLint/Json/Reader.lean

Reading JSON text piece by piece, as the reader of a record asks for it.  A
reader takes the text that is left and gives what it has read with the text left
after it, so that the first fault in the text is the one reported, be it of form
or of content.

Main definitions: `Fault`, `Reader`, `readString`, `readBool`, `readList`,
`nextKey?`, `readColon`, `skipValue`.
-/
import AnimLint.Json.Value
import AnimLint.Text.Span

namespace AnimLint.Json

/-! ### Faults -/

/-- What is wrong with a text. -/
inductive Cause
  | endOfValue
  | endOfList
  | endOfObject
  | endOfString
  | noValue
  | noWord
  | noColon
  | noListEnd
  | noObjectEnd
  | keyNoString
  | trailingComma
  | trailingCharacters
  | badNumber
  | numberOutOfRange
  | badEscape
  | controlCharacter
  | loneSurrogate
  | brokenSurrogate
  /-- A value of another kind than expected. -/
  | mismatch (kind : Kind) (expected : String)
  | duplicate (field : String)
deriving DecidableEq, Repr

/-- The words for a cause. -/
def Cause.message : Cause → String
  | endOfValue => "EOF while parsing a value"
  | endOfList => "EOF while parsing a list"
  | endOfObject => "EOF while parsing an object"
  | endOfString => "EOF while parsing a string"
  | noValue => "expected value"
  | noWord => "expected ident"
  | noColon => "expected `:`"
  | noListEnd => "expected `,` or `]`"
  | noObjectEnd => "expected `,` or `\x7d`"
  | keyNoString => "key must be a string"
  | trailingComma => "trailing comma"
  | trailingCharacters => "trailing characters"
  | badNumber => "invalid number"
  | numberOutOfRange => "number out of range"
  | badEscape => "invalid escape"
  | controlCharacter => "control character (\\u0000-\\u001F) found while parsing a string"
  | loneSurrogate => "lone leading surrogate in hex escape"
  | brokenSurrogate => "unexpected end of hex escape"
  | mismatch kind expected => kind.mismatch expected
  | duplicate field => "duplicate field `" ++ field ++ "`"

/-- A cause with its place: so many bytes after the start of what is left of the
text. -/
structure Fault where
  cause : Cause
  rest : List Char
  ahead : Nat
deriving DecidableEq, Repr

/-- Moves a line and a column over a character; the column counts bytes. -/
def movePast (place : Nat × Nat) (c : Char) : Nat × Nat :=
  if c == '\n' then (place.1 + 1, 0) else (place.1, place.2 + c.utf8Size)

/-- Moves a line and a column over so many bytes. -/
def moveBytes (place : Nat × Nat) : Nat → List Char → Nat × Nat
  | 0, _ => place
  | _, [] => place
  | n + 1, c :: r =>
    if n + 1 < c.utf8Size then (place.1, place.2 + (n + 1))
    else moveBytes (movePast place c) (n + 1 - c.utf8Size) r
termination_by n => n
decreasing_by
  have : 0 < c.utf8Size := Char.utf8Size_pos c
  omega

/-- The line and the column of a fault in a text. -/
def Fault.place (fault : Fault) (text : List Char) : Nat × Nat :=
  moveBytes ((text.take (text.length - fault.rest.length)).foldl movePast
    (1, 0)) fault.ahead
    fault.rest

/-- The words for a fault in a text. -/
def Fault.message (fault : Fault) (text : List Char) : String :=
  let (line, column) := fault.place text
  fault.cause.message ++ s!" at line {line} column {column}"

/-- Takes the text that is left and gives what it has read, with the text left
after it. -/
abbrev Reader (α : Type) := List Char → Except Fault (α × List Char)

/-- The blanks between the parts of a text. -/
def isBlank (c : Char) : Bool := c == ' ' || c == '\n' || c == '\t' || c == '\r'

def skipBlanks (s : List Char) : List Char := s.dropWhile isBlank

/-! ### Words and numbers -/

/-- Reads the letters of a word. -/
def readWord : List Char → List Char → Except Fault (List Char)
  | [], s => .ok s
  | _ :: _, [] => .error ⟨.endOfValue, [], 0⟩
  | c :: word, d :: r => if c == d then readWord word r else .error ⟨.noWord, d :: r, 1⟩

/-- The value of a decimal digit. -/
def digit? (c : Char) : Option Nat := if c.isDigit then some (c.toNat - 48) else none

/-- The largest number that the digits of a number may make before the rest of
them are dropped. -/
def maxSignificand : Nat := Nat.pow 2 64 - 1

/-- Adds digits to a number while it stays within bounds: the number, how many
digits were added, and what is left. -/
def takeDigits (n count : Nat) : List Char → Nat × Nat × List Char
  | [] => (n, count, [])
  | c :: r =>
    match digit? c with
    | none => (n, count, c :: r)
    | some d =>
      if maxSignificand < 10 * n + d then (n, count, c :: r)
      else takeDigits (10 * n + d) (count + 1) r

/-- The number for digits and a power of ten. -/
def numberOf (negative : Bool) (significand : Nat) (power : Int) :
    Reader Number := fun s =>
  match Double.scaled? significand power with
  | some x => .ok (.double negative x, s)
  | none => .error ⟨.numberOutOfRange, s, 0⟩

/-- The largest exponent that is told from infinity. -/
def maxExponent : Nat := Nat.pow 2 31 - 1

/-- Adds digits to an exponent; fails after the one that makes it too large. -/
def exponentDigits (n : Nat) : List Char → Except (List Char) (Nat × List Char)
  | [] => .ok (n, [])
  | c :: r =>
    match digit? c with
    | none => .ok (n, c :: r)
    | some d => if maxExponent < 10 * n + d then .error r else
      exponentDigits (10 * n + d) r

/-- Reads what follows the letter of an exponent. -/
def readExponent (negative : Bool) (significand : Nat) (power : Int) :
    Reader Number := fun s =>
  let (down, s) := match s with
    | '+' :: r => (false, r)
    | '-' :: r => (true, r)
    | _ => (false, s)
  match s with
  | [] => .error ⟨.endOfValue, [], 0⟩
  | c :: r =>
    match digit? c with
    | none => .error ⟨.badNumber, c :: r, 1⟩
    | some d =>
      match exponentDigits d r with
      | .ok (exponent, rest) =>
        numberOf negative significand
          (if down then power - exponent else power + exponent) rest
      | .error rest =>
        if significand != 0 && !down then .error ⟨.numberOutOfRange, rest, 0⟩
        else .ok (.double negative .zero, rest.dropWhile Char.isDigit)

/-- Reads the exponent of a number, if it has one. -/
def readMagnitude (negative : Bool) (significand : Nat) (power : Int) :
    Reader Number := fun s =>
  match s with
  | 'e' :: r | 'E' :: r => readExponent negative significand power r
  | _ => numberOf negative significand power s

/-- Reads what follows the point of a number. -/
def readFraction (negative : Bool) (significand : Nat) (power : Int) :
    Reader Number := fun s =>
  let (n, count, rest) := takeDigits significand 0 s
  match rest.head?.bind digit? with
  | some _ => readMagnitude negative n (power - count) (rest.dropWhile Char.isDigit)
  | none =>
    if count = 0 then
      if rest.isEmpty then .error ⟨.endOfValue, [], 0⟩ else .error ⟨.badNumber, rest, 1⟩
    else readMagnitude negative n (power - count) rest

/-- An integer, which stays one if its sign and size allow. -/
def integerOf (negative : Bool) (n : Nat) : Reader Number := fun s =>
  if !negative then .ok (.integer n, s)
  else if 0 < n && n ≤ Nat.pow 2 63 then .ok (.integer (-n), s)
  else numberOf true n 0 s

/-- Reads the digits of a number after its sign. -/
def readNumber (negative : Bool) : Reader Number := fun s =>
  match s with
  | [] => .error ⟨.endOfValue, [], 0⟩
  | c :: r =>
    match digit? c with
    | none => .error ⟨.badNumber, c :: r, 1⟩
    | some first =>
      let (n, _, after) := if first = 0 then (0, 0, r) else takeDigits first 0 r
      let dropped := (after.takeWhile Char.isDigit).length
      if first = 0 && dropped != 0 then .error ⟨.badNumber, r, 1⟩
      else
        match after.drop dropped with
        | '.' :: rest => readFraction negative n dropped rest
        | rest =>
          if dropped = 0 && rest.head? != some 'e' && rest.head? != some 'E' then
            integerOf negative n rest
          else readMagnitude negative n dropped rest

/-! ### Strings -/

/-- The value of a digit in base sixteen. -/
def hexValue? (c : Char) : Option Nat :=
  if c.isDigit then some (c.toNat - 48)
  else if 'a' ≤ c && c ≤ 'f' then some (c.toNat - 87)
  else if 'A' ≤ c && c ≤ 'F' then some (c.toNat - 55)
  else none

/-- The number that four digits in base sixteen make. -/
def hexFour (s : List Char) : Except Fault Nat :=
  match (s.take 4).mapM hexValue? with
  | some [a, b, c, d] => .ok (4096 * a + 256 * b + 16 * c + d)
  | _ => if 4 ≤ Text.byteLength s then .error ⟨.badEscape, s, 4⟩ else
    .error ⟨.endOfString, [], 0⟩

/-- The character for a code after `\u`, with how many characters follow the
backslash: a leading surrogate needs a trailing one after it. -/
def unicodeEscape (s : List Char) : Except Fault (Char × Nat) :=
  match hexFour s with
  | .error e => .error e
  | .ok n =>
    let rest := s.drop 4
    if 0xDC00 ≤ n && n ≤ 0xDFFF then .error ⟨.loneSurrogate, rest, 0⟩
    else if n < 0xD800 || 0xDBFF < n then .ok (Char.ofNat n, 5)
    else match rest with
      | [] => .error ⟨.endOfString, [], 0⟩
      | c :: more =>
        if c != '\\' then .error ⟨.brokenSurrogate, rest, 1⟩
        else match more with
          | [] => .error ⟨.endOfString, [], 0⟩
          | d :: code =>
            if d != 'u' then .error ⟨.brokenSurrogate, more, 1⟩
            else match hexFour code with
              | .error e => .error e
              | .ok m =>
                if m < 0xDC00 || 0xDFFF < m then .error ⟨.loneSurrogate, code.drop 4, 0⟩
                else .ok (Char.ofNat (0x10000 + (n - 0xD800) * 0x400 + (m - 0xDC00)), 11)

/-- The character that one after a backslash stands for. -/
def simpleEscape? (c : Char) : Option Char :=
  if c == '"' || c == '\\' || c == '/' then some c
  else if c == 'b' then some '\x08'
  else if c == 'f' then some '\x0c'
  else if c == 'n' then some '\n'
  else if c == 'r' then some '\r'
  else if c == 't' then some '\t'
  else none

/-- The character for what follows a backslash, with how many characters that
takes. -/
def unescape : List Char → Except Fault (Char × Nat)
  | [] => .error ⟨.endOfString, [], 0⟩
  | c :: r =>
    if c == 'u' then unicodeEscape r
    else match simpleEscape? c with
      | some d => .ok (d, 1)
      | none => .error ⟨.badEscape, c :: r, 1⟩

/-- Reads a string after its opening quote, of which `skip` characters are read
already. -/
def stringFrom (skip : Nat) : Reader (List Char)
  | [] => .error ⟨.endOfString, [], 0⟩
  | c :: r =>
    match skip with
    | k + 1 => stringFrom k r
    | 0 =>
      if c == '"' then .ok ([], r)
      else if c == '\\' then
        match unescape r with
        | .error e => .error e
        | .ok (d, n) =>
          match stringFrom n r with
          | .error e => .error e
          | .ok (s, rest) => .ok (d :: s, rest)
      else if c.toNat < 32 then .error ⟨.controlCharacter, c :: r, 1⟩
      else
        match stringFrom 0 r with
        | .error e => .error e
        | .ok (s, rest) => .ok (c :: s, rest)

/-- How many characters of a string that is not wanted follow a backslash. -/
def escapeLength : List Char → Except Fault Nat
  | [] => .error ⟨.endOfString, [], 0⟩
  | c :: r =>
    if c == 'u' then
      match hexFour r with
      | .error e => .error e
      | .ok _ => .ok 5
    else if (simpleEscape? c).isSome then .ok 1
    else .error ⟨.badEscape, c :: r, 1⟩

/-- Passes over a string after its opening quote; surrogates are not looked
at. -/
def skipString (skip : Nat) : List Char → Except Fault (List Char)
  | [] => .error ⟨.endOfString, [], 0⟩
  | c :: r =>
    match skip with
    | k + 1 => skipString k r
    | 0 =>
      if c == '"' then .ok r
      else if c == '\\' then
        match escapeLength r with
        | .error e => .error e
        | .ok n => skipString n r
      else if c.toNat < 32 then .error ⟨.controlCharacter, c :: r, 0⟩
      else skipString 0 r

/-! ### Values of a known kind -/

/-- The fault of a value that is of another kind than expected. -/
def mismatch (expected : String) (s : List Char) : Fault :=
  let found (kind : Kind) (rest : List Char) : Fault := ⟨.mismatch kind expected, rest, 0⟩
  let word (letters : String) (kind : Kind) (r : List Char) : Fault :=
    match readWord letters.toList r with
    | .error e => e
    | .ok rest => found kind rest
  let number (negative : Bool) (r : List Char) : Fault :=
    match readNumber negative r with
    | .error e => e
    | .ok (n, rest) => found (.number n) rest
  match s with
  | 'n' :: r => word "ull" .null r
  | 't' :: r => word "rue" (.bool true) r
  | 'f' :: r => word "alse" (.bool false) r
  | '-' :: r => number true r
  | '"' :: r =>
    match stringFrom 0 r with
    | .error e => e
    | .ok (text, rest) => found (.string text) rest
  | '[' :: _ => found .sequence s
  | '\x7b' :: _ => found .map s
  | c :: _ => if c.isDigit then number false s else ⟨.noValue, s, 1⟩
  | [] => ⟨.endOfValue, [], 0⟩

/-- Reads a string. -/
def readString : Reader String := fun s =>
  match skipBlanks s with
  | '"' :: r =>
    match stringFrom 0 r with
    | .error e => .error e
    | .ok (text, rest) => .ok (String.ofList text, rest)
  | s => .error (mismatch "a string" s)

/-- Reads a truth value. -/
def readBool : Reader Bool := fun s =>
  match skipBlanks s with
  | 't' :: r => (readWord "rue".toList r).map (true, ·)
  | 'f' :: r => (readWord "alse".toList r).map (false, ·)
  | s => .error (mismatch "a boolean" s)

/-! ### Lists -/

/-- Goes to the next item of a list, or tells that there is none; `more` says
that an item came before. -/
def nextItem? (more : Bool) : Reader Bool := fun s =>
  match skipBlanks s with
  | [] => .error ⟨.endOfList, [], 0⟩
  | c :: r =>
    if c == ']' then .ok (false, c :: r)
    else if !more then .ok (true, c :: r)
    else if c != ',' then .error ⟨.noListEnd, c :: r, 1⟩
    else match skipBlanks r with
      | [] => .error ⟨.endOfValue, [], 0⟩
      | d :: rest =>
        if d == ']' then .error ⟨.trailingComma, d :: rest, 1⟩ else .ok (true, d :: rest)

/-- Reads the end of a list. -/
def closeList (s : List Char) : Except Fault (List Char) :=
  match skipBlanks s with
  | [] => .error ⟨.endOfList, [], 0⟩
  | c :: r =>
    if c == ']' then .ok r
    else if c == ',' then
      let rest := skipBlanks r
      .error ⟨if rest.head? == some ']' then .trailingComma else
        .trailingCharacters, rest, 1⟩
    else .error ⟨.trailingCharacters, c :: r, 1⟩

/-- Reads the items of a list up to its end; there are at most as many as the
first argument. -/
def readItems (item : Reader α) : Nat → Bool → Reader (List α)
  | 0, _, s => .error ⟨.endOfList, s, 0⟩
  | n + 1, more, s => do
    let (another, s) ← nextItem? more s
    if another then
      let (a, s) ← item s
      let (as, s) ← readItems item n true s
      return (a :: as, s)
    else
      return ([], ← closeList s)

/-- Reads a list. -/
def readList (item : Reader α) : Reader (List α) := fun s =>
  match skipBlanks s with
  | '[' :: r => readItems item (r.length + 1) false r
  | s => .error (mismatch "a sequence" s)

/-! ### Objects -/

/-- Reads the next key of an object, unless the object ends; `more` says that a
field came before. -/
def nextKey? (more : Bool) : Reader (Option (List Char)) := fun s =>
  let key (r : List Char) : Except Fault (Option (List Char) × List Char) :=
    (stringFrom 0 r).map fun (k, rest) => (some k, rest)
  match skipBlanks s with
  | [] => .error ⟨.endOfObject, [], 0⟩
  | c :: r =>
    if c == '\x7d' then .ok (none, c :: r)
    else if !more then if c == '"' then key r else .error ⟨.keyNoString, c :: r, 1⟩
    else if c != ',' then .error ⟨.noObjectEnd, c :: r, 1⟩
    else match skipBlanks r with
      | [] => .error ⟨.endOfValue, [], 0⟩
      | d :: rest =>
        if d == '"' then key rest
        else .error ⟨if d == '\x7d' then .trailingComma else .keyNoString, d :: rest, 1⟩

/-- Reads the colon between a key and its value. -/
def readColon (s : List Char) : Except Fault (List Char) :=
  match skipBlanks s with
  | [] => .error ⟨.endOfObject, [], 0⟩
  | c :: r => if c == ':' then .ok r else .error ⟨.noColon, c :: r, 1⟩

/-- Reads the fields of an object into a record, each by a reader of its own, up
to the end of the object; there are at most as many as the first argument. -/
def readFields (field : σ → List Char → Reader σ) : Nat → Bool → σ → Reader σ
  | 0, _, _, s => .error ⟨.endOfObject, s, 0⟩
  | n + 1, more, record, s => do
    let (key, s) ← nextKey? more s
    match key with
    | none => return (record, s.drop 1)
    | some key =>
      let (record, s) ← field record key s
      readFields field n true record s

/-! ### Values that are not wanted -/

/-- Passes over digits, of which there has to be one. -/
def skipDigits : List Char → Except Fault (List Char)
  | [] => .error ⟨.badNumber, [], 0⟩
  | c :: r => if c.isDigit then .ok (r.dropWhile Char.isDigit) else
    .error ⟨.badNumber, c :: r, 1⟩

/-- Passes over an exponent after its letter. -/
def skipExponent (s : List Char) : Except Fault (List Char) :=
  match s with
  | '+' :: r => skipDigits r
  | '-' :: r => skipDigits r
  | _ => skipDigits s

/-- Passes over the exponent of a number, if it has one. -/
def skipMagnitude (s : List Char) : Except Fault (List Char) :=
  match s with
  | 'e' :: r | 'E' :: r => skipExponent r
  | _ => .ok s

/-- Passes over the fraction and the exponent of a number, if it has them. -/
def skipFraction (s : List Char) : Except Fault (List Char) :=
  match s with
  | '.' :: r => (skipDigits r).bind skipMagnitude
  | _ => skipMagnitude s

/-- Passes over the digits of a number after its sign, of whatever size. -/
def skipNumber (s : List Char) : Except Fault (List Char) :=
  match s with
  | '0' :: r =>
    if (r.head?.bind digit?).isSome then .error ⟨.badNumber, r, 1⟩ else skipFraction r
  | _ => (skipDigits s).bind skipFraction

/-- Passes over a value that is neither a list nor an object. -/
def skipScalar (s : List Char) : Except Fault (List Char) :=
  match s with
  | [] => .error ⟨.endOfValue, [], 0⟩
  | 'n' :: r => readWord "ull".toList r
  | 't' :: r => readWord "rue".toList r
  | 'f' :: r => readWord "alse".toList r
  | '"' :: r => skipString 0 r
  | '-' :: r => skipNumber r
  | c :: r => if c.isDigit then skipNumber (c :: r) else .error ⟨.noValue, c :: r, 1⟩

/-- Passes over a key and its colon. -/
def skipKey (s : List Char) : Except Fault (List Char) :=
  match skipBlanks s with
  | [] => .error ⟨.endOfObject, [], 0⟩
  | c :: r =>
    if c == '"' then (skipString 0 r).bind readColon
    else .error ⟨.keyNoString, c :: r, 1⟩

mutual

/-- Passes over a value; the first argument bounds the number of parts on the
way. -/
def skipValueIn : Nat → List Char → Except Fault (List Char)
  | 0, s => .error ⟨.endOfValue, s, 0⟩
  | n + 1, s =>
    match skipBlanks s with
    | '[' :: r => skipItems n false r
    | '\x7b' :: r => skipFields n false r
    | s => skipScalar s

/-- Passes over the items of a list. -/
def skipItems : Nat → Bool → List Char → Except Fault (List Char)
  | 0, _, s => .error ⟨.endOfList, s, 0⟩
  | n + 1, more, s =>
    match skipBlanks s with
    | [] => .error ⟨.endOfList, [], 0⟩
    | c :: r =>
      if c == ']' then .ok r
      else if !more then do skipItems n true (← skipValueIn n (c :: r))
      else if c == ',' then do skipItems n true (← skipValueIn n r)
      else .error ⟨.noListEnd, c :: r, 1⟩

/-- Passes over the fields of an object. -/
def skipFields : Nat → Bool → List Char → Except Fault (List Char)
  | 0, _, s => .error ⟨.endOfObject, s, 0⟩
  | n + 1, more, s =>
    match skipBlanks s with
    | [] => .error ⟨.endOfObject, [], 0⟩
    | c :: r =>
      if c == '\x7d' then .ok r
      else if !more then do skipFields n true (← skipValueIn n (← skipKey (c :: r)))
      else if c == ',' then do skipFields n true (← skipValueIn n (← skipKey r))
      else .error ⟨.noObjectEnd, c :: r, 1⟩

end

/-- Passes over a value. -/
def skipValue (s : List Char) : Except Fault (List Char) :=
  skipValueIn (2 * s.length + 2) s

end AnimLint.Json
