/-
AnimLint/Text/Utf8.lean

Bytes as text.  The bytes are read one at a time; between them stands what a
character that has begun still needs.  Bytes that make no character are one gap
for each longest start of one.

Main definitions: `decodeUnits`, `decode?`, `decodeLossy`.
-/

namespace AnimLint.Text

/-- A character that has begun: how many bytes are missing, its bits so far, and
the bounds of the next byte. -/
structure Pending where
  missing : Nat
  bits : Nat
  low : Nat
  high : Nat
deriving DecidableEq, Repr

/-- What a first byte begins, if a character of several bytes starts with it. -/
def Pending.ofFirst? (b : Nat) : Option Pending :=
  if 0xC2 ≤ b && b ≤ 0xDF then some ⟨1, b - 0xC0, 0x80, 0xBF⟩
  else if b = 0xE0 then some ⟨2, 0, 0xA0, 0xBF⟩
  else if b = 0xED then some ⟨2, 0xD, 0x80, 0x9F⟩
  else if 0xE1 ≤ b && b ≤ 0xEF then some ⟨2, b - 0xE0, 0x80, 0xBF⟩
  else if b = 0xF0 then some ⟨3, 0, 0x90, 0xBF⟩
  else if 0xF1 ≤ b && b ≤ 0xF3 then some ⟨3, b - 0xF0, 0x80, 0xBF⟩
  else if b = 0xF4 then some ⟨3, 4, 0x80, 0x8F⟩
  else none

/-- The units that are complete after a byte between two characters, and what it
begins. -/
def firstByte (b : Nat) : List (Option Char) × Option Pending :=
  if b < 0x80 then ([some (Char.ofNat b)], none)
  else match Pending.ofFirst? b with
    | some p => ([], some p)
    | none => ([none], none)

/-- The units that are complete after a byte, and what is begun then. -/
def nextByte : Option Pending → Nat → List (Option Char) × Option Pending
  | none, b => firstByte b
  | some p, b =>
    if p.low ≤ b && b ≤ p.high then
      let bits := p.bits * 64 + (b - 0x80)
      if p.missing ≤ 1 then ([some (Char.ofNat bits)], none)
      else ([], some ⟨p.missing - 1, bits, 0x80, 0xBF⟩)
    else
      let (units, pending) := firstByte b
      (none :: units, pending)

/-- The characters that bytes make, with a gap for each longest start of a
character that is not completed. -/
def decodeUnits : Option Pending → List UInt8 → List (Option Char)
  | none, [] => []
  | some _, [] => [none]
  | pending, b :: r =>
    let (units, pending) := nextByte pending b.toNat
    units ++ decodeUnits pending r

/-- The text that bytes make, if they make one. -/
def decode? (bytes : List UInt8) : Option (List Char) := (decodeUnits none bytes).mapM id

/-- The text that bytes make, with a replacement character for each gap. -/
def decodeLossy (bytes : List UInt8) : List Char :=
  (decodeUnits none bytes).map (·.getD '\uFFFD')

end AnimLint.Text
