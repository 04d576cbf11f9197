/-
AnimLint/Json/Number.lean

Numbers as JSON has them.  An integer that fits a machine word stays an integer;
any other number is rounded to double precision, which is done here in exact
arithmetic on natural numbers, and is written with the fewest digits that round
to it again.

Main definitions: `Double`, `Double.ofRatio?`, `Double.scaled?`, `Double.text`,
`Number`.
-/

namespace AnimLint.Json

/-! ### Double precision -/

/-- A number of double precision without its sign: `mantissa * 2 ^ exponent`,
where a mantissa below `2 ^ 52` occurs with the least exponent only. -/
structure Double where
  mantissa : Nat
  exponent : Int
deriving DecidableEq, Repr

namespace Double

/-- A ratio divided by a power of two. -/
def scaleRatio (num den : Nat) (exponent : Int) : Nat × Nat :=
  if 0 ≤ exponent then (num, den * Nat.pow 2 exponent.toNat)
  else (num * Nat.pow 2 (-exponent).toNat, den)

/-- The quotient rounded to the nearest whole number, a half to the even
neighbour. -/
def roundDiv (num den : Nat) : Nat :=
  let quotient := num / den
  let twice := 2 * (num % den)
  if twice > den || (twice == den && quotient % 2 == 1) then quotient + 1 else quotient

/-- The exponent of the number nearest to a positive ratio. -/
def exponentOf (num den : Nat) : Int :=
  let guess := (Nat.log2 num : Int) - Nat.log2 den - 52
  let (n, d) := scaleRatio num den guess
  max (-1074) (if n / d < Nat.pow 2 52 then guess - 1 else guess)

/-- The number nearest to a ratio, unless it is too large. -/
def ofRatio? (num den : Nat) : Option Double :=
  if num = 0 then some ⟨0, -1074⟩
  else
    let exponent := exponentOf num den
    let (n, d) := scaleRatio num den exponent
    let mantissa := roundDiv n d
    let result : Double :=
      if mantissa = Nat.pow 2 53 then ⟨Nat.pow 2 52, exponent + 1⟩ else
        ⟨mantissa, exponent⟩
    if 971 < result.exponent then none else some result

/-- A number as a ratio. -/
def ratio (x : Double) : Nat × Nat := scaleRatio x.mantissa 1 (-x.exponent)

def zero : Double := ⟨0, -1074⟩

/-- The rounded product with a power of ten, which is rounded itself. -/
def timesPower? (x : Double) (power : Nat) : Option Double :=
  (ofRatio? (Nat.pow 10 power) 1).bind fun p =>
    ofRatio? (x.ratio.1 * p.ratio.1) (x.ratio.2 * p.ratio.2)

/-- The rounded quotient by a power of ten, which is rounded itself. -/
def overPower (x : Double) (power : Nat) : Double :=
  ((ofRatio? (Nat.pow 10 power) 1).bind fun p =>
    ofRatio? (x.ratio.1 * p.ratio.2) (x.ratio.2 * p.ratio.1)).getD zero

/-- A whole number times a power of ten, in at most three roundings, unless it
is too large. -/
def scaled? (significand : Nat) (power : Int) : Option Double :=
  (ofRatio? significand 1).bind fun x =>
    if 308 < power then if x.mantissa = 0 then some x else none
    else if 0 ≤ power then x.timesPower? power.toNat
    else if -308 ≤ power then some (x.overPower (-power).toNat)
    else if -616 ≤ power then some ((x.overPower 308).overPower (-power - 308).toNat)
    else some zero

/-! ### The shortest digits -/

/-- Four times a number and the ends of the interval of those that round to it,
all in units of `2 ^ (exponent - 2)`: the neighbour below a power of two is only
half as far. -/
def interval (x : Double) : Nat × Nat × Nat :=
  let below := if x.mantissa = Nat.pow 2 52 && x.exponent != -1074 then 1 else 2
  (4 * x.mantissa - below, 4 * x.mantissa, 4 * x.mantissa + 2)

/-- Holds if `digits * 10 ^ power` rounds to the number. -/
def roundsTo (x : Double) (digits : Nat) (power : Int) : Bool :=
  let (low, _, high) := x.interval
  let (unitNum, unitDen) := scaleRatio 1 1 (2 - x.exponent)
  let (tenNum, tenDen) :=
    if 0 ≤ power then (Nat.pow 10 power.toNat, 1) else (1, Nat.pow 10 (-power).toNat)
  let value := digits * tenNum * unitDen
  let unit := unitNum * tenDen
  if x.mantissa % 2 == 0 then low * unit ≤ value && value ≤ high * unit
  else low * unit < value && value < high * unit

/-- The digits nearest to the number among the multiples of a power of ten that
round to it. -/
def digitsAt? (x : Double) (power : Int) : Option Nat :=
  let (num, den) := x.ratio
  let (n, d) := if 0 ≤ power then (num, den * Nat.pow 10 power.toNat)
    else (num * Nat.pow 10 (-power).toNat, den)
  let near := roundDiv n d
  let far := if near == n / d then near + 1 else n / d
  if x.roundsTo near power then some near
  else if x.roundsTo far power then some far
  else none

/-- The fewest digits that round to the number, and the power of ten they count;
tries so many powers from the given one down. -/
def shortestFrom (x : Double) : Nat → Int → Nat × Int
  | 0, power => (0, power)
  | n + 1, power =>
    match x.digitsAt? power with
    | some (k + 1) => (k + 1, power)
    | _ => shortestFrom x n (power - 1)

/-- Takes the zeros off the end of a number; as many as it has digits at
most. -/
def dropZeros : Nat → Nat → Int → Nat × Int
  | 0, digits, power => (digits, power)
  | n + 1, digits, power =>
    if digits % 10 == 0 && digits != 0 then dropZeros n (digits / 10) (power + 1)
    else (digits, power)

/-- The fewest digits that round to a positive number, and the power of ten they
count. -/
def shortest (x : Double) : Nat × Int :=
  let (num, den) := x.ratio
  let top : Int := ((Nat.toDigits 10 num).length : Int) - (Nat.toDigits 10 den).length + 1
  let (digits, power) := x.shortestFrom 20 top
  dropZeros 20 digits power

/-- The text of a number: positional where the point falls within the first
sixteen places or at most five before them, with an exponent otherwise. -/
def text (x : Double) : String :=
  if x.mantissa = 0 then "0.0"
  else
    let (digits, power) := x.shortest
    let ds := Nat.toDigits 10 digits
    let point : Int := ds.length + power
    let chars :=
      if 0 ≤ power && point ≤ 16 then ds ++ List.replicate power.toNat '0' ++ ['.', '0']
      else if 0 < point && point ≤ 16 then
        ds.take point.toNat ++ '.' :: ds.drop point.toNat
      else if -5 < point && point ≤ 0 then
        '0' :: '.' :: (List.replicate (-point).toNat '0' ++ ds)
      else
        let exponent := (toString (point - 1)).toList
        match ds with
        | [d] => d :: 'e' :: exponent
        | d :: more => d :: '.' :: (more ++ 'e' :: exponent)
        | [] => []
    String.ofList chars

end Double

/-! ### Numbers -/

/-- A number of a JSON value. -/
inductive Number
  | integer (n : Int)
  | double (negative : Bool) (magnitude : Double)
deriving DecidableEq, Repr

namespace Number

/-- Holds of the integers that stay integers. -/
def isWord (n : Int) : Bool := -(Nat.pow 2 63) ≤ n && n < Nat.pow 2 64

/-- An integer over a power of ten; nothing if it is too large. -/
def ofDecimal? (n : Int) (places : Nat) : Option Number :=
  if places = 0 && isWord n then some (integer n)
  else (Double.ofRatio? n.natAbs (Nat.pow 10 places)).map (double (decide (n < 0)))

/-- The text of a number. -/
def text : Number → String
  | integer n => toString n
  | double negative x => (if negative then "-" else "") ++ x.text

end Number

end AnimLint.Json
