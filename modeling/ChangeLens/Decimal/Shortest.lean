import ChangeLens.Text.Blank

/-! Decimal numbers as binary floating point of double precision holds them, written with the fewest digits
that read back as the same number. All arithmetic is exact, on whole numbers. -/
namespace ChangeLens

structure Decimal where
  negative : Bool
  digits : Nat
  exponent : Int
  deriving DecidableEq

/-- The number `mantissa · 2 ^ exponent`. -/
structure Binary where
  mantissa : Nat
  exponent : Int

/-- The quotient rounded to the nearest whole number, a half to the even neighbour. -/
def roundDiv (num den : Nat) : Nat :=
  let q := num / den
  let r := num % den
  if 2 * r < den then q
  else if 2 * r > den then q + 1
  else if q % 2 = 0 then q else q + 1

/-- A power with a whole exponent, as numerator and denominator. -/
def ratio (base : Nat) (exponent : Int) : Nat × Nat :=
  if 0 ≤ exponent then (base.pow exponent.toNat, 1) else (1, base.pow (-exponent).toNat)

namespace Binary

def minExponent : Int := -1074
def maxExponent : Int := 971

/-- The least number of 53 binary digits. Above the least exponent every mantissa has that many. -/
def leastFull : Nat := Nat.pow 2 52

/-- The nearest number of 53 binary digits to a positive quotient, or none if it is too great. -/
def nearest? (num den : Nat) : Option Binary :=
  let guess : Int := (num.log2 : Int) - den.log2 - 53
  let rounded (exponent : Int) : Binary :=
    let (a, b) := ratio 2 exponent
    ⟨roundDiv (num * b) (den * a), exponent⟩
  let low := max guess minExponent
  let fits := [low, low + 1, low + 2, low + 3].find? fun e => (rounded e).mantissa ≤ 2 * leastFull
  match fits.map rounded with
  | some b =>
    let b := if b.mantissa = 2 * leastFull then ⟨leastFull, b.exponent + 1⟩ else b
    if b.exponent > maxExponent then none else some b
  | none => none

/-- The number of 53 binary digits next to a product, or none if it is too great. -/
def times? (a b : Binary) : Option Binary :=
  let (p, q) := ratio 2 (a.exponent + b.exponent)
  if a.mantissa = 0 ∨ b.mantissa = 0 then some ⟨0, minExponent⟩ else nearest? (a.mantissa * b.mantissa * p) q

def floor (b : Binary) : Nat :=
  let (p, q) := ratio 2 b.exponent
  b.mantissa * p / q

/-- The gap to the next lower number, in quarters of the last digit's value. -/
def gapBelow (b : Binary) : Nat := if b.mantissa = leastFull ∧ b.exponent > minExponent then 1 else 2

/-- Whether `c · 10 ^ place` rounds to `b`. The ends of the interval round to it if its last digit is even. -/
def readsBack (b : Binary) (c : Nat) (place : Int) : Bool :=
  let (a, d) := ratio 2 (b.exponent - 2)
  let (p, q) := ratio 10 place
  let low := (4 * b.mantissa - b.gapBelow) * a * q
  let high := (4 * b.mantissa + 2) * a * q
  let value := c * p * d
  if b.mantissa % 2 = 0 then low ≤ value && value ≤ high else low < value && value < high

def leadingPlace (b : Binary) : Int :=
  let (a, d) := ratio 2 b.exponent
  let num := b.mantissa * a
  let guess : Int := (Nat.toDigits 10 num).length - (Nat.toDigits 10 d).length
  let (p, q) := ratio 10 guess
  if p * d ≤ num * q then guess else guess - 1

/-- The nearer of the two numbers next to `b` on the grid of multiples of `10 ^ place`, if it reads back. -/
def onGrid? (b : Binary) (place : Int) : Option Nat :=
  let (a, d) := ratio 2 b.exponent
  let (p, q) := ratio 10 place
  let c := roundDiv (b.mantissa * a * q) (d * p)
  let floor := b.mantissa * a * q / (d * p)
  let other := if c = floor then floor + 1 else floor
  if b.readsBack c place then some c else if b.readsBack other place then some other else none

/-- The fewest digits that read back, with the place of the last one. -/
def shortest (b : Binary) : Nat × Int :=
  let lead := b.leadingPlace
  let tries := (List.range 17).map fun (n : Nat) => lead - n
  (tries.findSome? fun place => (b.onGrid? place).map (·, place)).getD (b.mantissa, b.exponent)

end Binary

namespace Decimal

def zeros (n : Nat) : String := .ofList (List.replicate n '0')

/-- Digits with a point after the first `point` of them. Without an exponent there is always a digit on both
sides of the point; numbers that would need many zeros get one, of two digits at least. -/
def layout (digits : List Char) (point : Int) : String :=
  if -4 < point ∧ point ≤ 16 then
    if point ≤ 0 then "0." ++ zeros (-point).toNat ++ .ofList digits
    else if (digits.length : Int) ≤ point then .ofList digits ++ zeros (point - digits.length).toNat ++ ".0"
    else .ofList (digits.take point.toNat) ++ "." ++ .ofList (digits.drop point.toNat)
  else
    let exponent := point - 1
    let magnitude := toString exponent.natAbs
    let body := match digits with
      | [] => "0"
      | [d] => .ofList [d]
      | d :: ds => .ofList [d] ++ "." ++ .ofList ds
    body ++ "e" ++ (if exponent < 0 then "-" else "+") ++ (if magnitude.length < 2 then "0" else "") ++ magnitude

/-- The number as binary floating point holds it, or none if it is too great. Numbers so far out of the range
that their digits do not matter are told by their size. -/
def nearest? (x : Decimal) : Option Binary :=
  let size : Int := (Nat.toDigits 10 x.digits).length + x.exponent
  if x.digits = 0 ∨ size < -400 then some ⟨0, Binary.minExponent⟩
  else if 400 < size then none
  else
    let (p, q) := ratio 10 x.exponent
    Binary.nearest? (x.digits * p) q

def infinite (negative : Bool) : Decimal := ⟨negative, 1, 400⟩

/-- The number taken from zero, which has no sign if it is zero itself. -/
def negated (x : Decimal) : Decimal :=
  { x with negative := !x.negative && !(x.nearest?.any (·.mantissa = 0)) }

def text (x : Decimal) : String :=
  let sign := if x.negative then "-" else ""
  match x.nearest? with
  | none => sign ++ "inf"
  | some b =>
    if b.mantissa = 0 then sign ++ "0.0"
    else
      let (c, place) := b.shortest
      let cs := Nat.toDigits 10 c
      let significant := Text.dropEndWhile (· == '0') cs
      sign ++ layout significant (cs.length + place)

end Decimal
end ChangeLens
