/-
AnimLint/Json/Value.lean

JSON values and their text, laid out with two spaces for each level.

Main definitions: `Json`, `Json.render`, `Json.kind`.
-/
import AnimLint.Json.Number
import AnimLint.Text.Quoted

namespace AnimLint

/-- A JSON value; the fields of an object keep their order. -/
inductive Json
  | null
  | bool (b : Bool)
  | number (n : Json.Number)
  | string (s : String)
  | array (items : List Json)
  | object (fields : List (String × Json))
deriving Inhabited, Repr

namespace Json

/-- A digit in base sixteen. -/
def hexDigit (n : Nat) : Char :=
  if n < 10 then Char.ofNat (48 + n) else Char.ofNat (87 + n)

/-- One character as it stands in a string. -/
def escape (c : Char) : List Char :=
  if c == '"' then ['\\', '"']
  else if c == '\\' then ['\\', '\\']
  else if c == '\n' then ['\\', 'n']
  else if c == '\r' then ['\\', 'r']
  else if c == '\t' then ['\\', 't']
  else if c.toNat == 8 then ['\\', 'b']
  else if c.toNat == 12 then ['\\', 'f']
  else if c.toNat < 32 then
    ['\\', 'u', '0', '0', hexDigit (c.toNat / 16), hexDigit (c.toNat % 16)]
  else [c]

/-- A string with its quotes. -/
def renderString (s : String) : List Char := '"' :: (s.toList.flatMap escape ++ ['"'])

/-- A line break and the indentation of a level. -/
def newLine (level : Nat) : List Char := '\n' :: List.replicate (2 * level) ' '

mutual

/-- The text of a value at a level of indentation. -/
def renderAt (level : Nat) : Json → List Char
  | null => "null".toList
  | bool b => if b then "true".toList else "false".toList
  | number n => n.text.toList
  | string s => renderString s
  | array [] => "[]".toList
  | array (item :: items) =>
    '[' :: (newLine (level + 1) ++ (renderAt (level + 1) item ++
      (renderItems (level + 1) items ++ (newLine level ++ [']']))))
  | object [] => ['\x7b', '\x7d']
  | object ((name, value) :: fields) =>
    '\x7b' :: (newLine (level + 1) ++ (renderString name ++ (':' :: ' ' ::
      (renderAt (level + 1) value ++ (renderFields (level + 1) fields ++
        (newLine level ++ ['\x7d']))))))

/-- The text of further items, each after a comma. -/
def renderItems (level : Nat) : List Json → List Char
  | [] => []
  | item :: items => ',' ::
    (newLine level ++ (renderAt level item ++ renderItems level items))

/-- The text of further fields, each after a comma. -/
def renderFields (level : Nat) : List (String × Json) → List Char
  | [] => []
  | (name, value) :: fields =>
    ',' :: (newLine level ++ (renderString name ++ (':' :: ' ' ::
      (renderAt level value ++ renderFields level fields))))

end

/-- The text of a value. -/
def render (j : Json) : String := String.ofList (renderAt 0 j)

/-- A list of strings as a value. -/
def strings (items : List String) : Json := array (items.map string)

/-- A natural number as a value. -/
def nat (n : Nat) : Json := number (.integer n)

/-! ### Kinds -/

/-- What a value is, as far as an error says it. -/
inductive Kind
  | null
  | bool (b : Bool)
  | number (n : Number)
  | string (s : List Char)
  | sequence
  | map
deriving DecidableEq, Repr

/-- The words for a kind of value. -/
def Kind.words : Kind → String
  | null => "null"
  | bool b => "boolean `" ++ (if b then "true" else "false") ++ "`"
  | number (.integer n) => "integer `" ++ toString n ++ "`"
  | number x => "floating point `" ++ x.text ++ "`"
  | string s => "string " ++ String.ofList (Text.quote s)
  | sequence => "sequence"
  | map => "map"

/-- What a value is. -/
def kind : Json → Kind
  | null => .null
  | bool b => .bool b
  | number n => .number n
  | string s => .string s.toList
  | array _ => .sequence
  | object _ => .map

/-- Says that a value of another kind was expected. -/
def Kind.mismatch (kind : Kind) (expected : String) : String :=
  "invalid type: " ++ kind.words ++ ", expected " ++ expected

end Json

end AnimLint
