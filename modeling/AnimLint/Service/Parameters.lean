/-
AnimLint/Service/Parameters.lean

The parameters of the tools, read from JSON values: an object with named fields,
or a list of the values in order.  Fields that are not known are passed over.

Main definitions: `RootParameters`, `ScanParameters`, `ParameterError`.
-/
import AnimLint.Json.Value

namespace AnimLint.Service

/-! ### Errors -/

/-- Why parameters could not be read. -/
inductive ParameterError
  | mismatch (kind : Json.Kind) (expected : String)
  | outOfRange (n : Int)
  | missing (field : String)
  /-- A list with too few values for a record with so many fields. -/
  | tooShort (length : Nat) (record : String) (fields : Nat)
  | tooLong (length : Nat)
deriving DecidableEq, Repr

/-- The words for an error. -/
def ParameterError.message : ParameterError → String
  | mismatch kind expected => kind.mismatch expected
  | outOfRange n => s!"invalid value: integer `{n}`, expected u32"
  | missing field => "missing field `" ++ field ++ "`"
  | tooShort length record fields =>
    s!"invalid length {length}, expected struct " ++ record ++ s!" with {fields} " ++
      if fields = 1 then "element" else "elements"
  | tooLong length => s!"invalid length {length}, expected fewer elements in array"

/-! ### Values -/

/-- A text. -/
def text : Json → Except ParameterError String
  | .string s => .ok s
  | j => .error (.mismatch j.kind "a string")

/-- A count that fits four bytes, or nothing. -/
def count? : Json → Except ParameterError (Option Nat)
  | .null => .ok none
  | .number (.integer n) =>
    if 0 ≤ n && n < Nat.pow 2 32 then .ok (some n.toNat) else .error (.outOfRange n)
  | j => .error (.mismatch j.kind "u32")

/-! ### Records -/

/-- Where the tools look. -/
structure RootParameters where
  root : String
deriving DecidableEq, Repr

/-- Where to look, and which part of the findings to give. -/
structure ScanParameters where
  root : String
  limit : Option Nat
  offset : Option Nat
deriving DecidableEq, Repr

/-- The name of the field for the root. -/
def rootField : String := "projectRootPath"

/-- Reads one field after another into a record. -/
def readFields (field : ρ → String → Json → Except ParameterError ρ) :
    ρ → List (String × Json) → Except ParameterError ρ
  | record, [] => .ok record
  | record, (name, value) :: rest =>
    match field record name value with
    | .error e => .error e
    | .ok record => readFields field record rest

/-- Reads where to look; `record` names what is read. -/
def RootParameters.read (record : String) : Json → Except ParameterError RootParameters
  | .object fields => do
    let found ← readFields (fun (found : Option String) name value =>
      if name = rootField then (text value).map some else .ok found) none fields
    match found with
    | some root => return ⟨root⟩
    | none => throw (.missing rootField)
  | .array [] => .error (.tooShort 0 record 1)
  | .array (first :: rest) => do
    let root ← text first
    if rest.isEmpty then return ⟨root⟩ else throw (.tooLong (rest.length + 1))
  | j => .error (.mismatch j.kind ("struct " ++ record))

/-- The name of the parameters of a scan. -/
def scanRecord : String := "ScanCompactCallsParams"

/-- Reads where to look and which part to give. -/
def ScanParameters.read : Json → Except ParameterError ScanParameters
  | .object fields => do
    let found ← readFields
        (fun (found : Option String × Option Nat × Option Nat) name value =>
      if name = rootField then (text value).map fun root => (some root, found.2)
      else if name = "limit" then (count? value).map fun n => (found.1, n, found.2.2)
      else if name = "offset" then (count? value).map fun n => (found.1, found.2.1, n)
      else .ok found) (none, none, none) fields
    match found with
    | (some root, limit, offset) => return ⟨root, limit, offset⟩
    | (none, _, _) => throw (.missing rootField)
  | .array items => do
    match items with
    | [] => throw (.tooShort 0 scanRecord 3)
    | first :: rest =>
      let root ← text first
      match rest with
      | [] => throw (.tooShort 1 scanRecord 3)
      | second :: rest =>
        let limit ← count? second
        match rest with
        | [] => throw (.tooShort 2 scanRecord 3)
        | third :: rest =>
          let offset ← count? third
          if rest.isEmpty then return ⟨root, limit, offset⟩
          else throw (.tooLong (rest.length + 3))
  | j => .error (.mismatch j.kind ("struct " ++ scanRecord))

end AnimLint.Service
