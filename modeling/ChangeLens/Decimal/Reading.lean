import ChangeLens.Decimal.Shortest
import ChangeLens.Text.Number

/-! Reading decimal numbers with a fraction, an exponent, both or neither. -/
namespace ChangeLens.Decimal

open Text

/-- A row of digits with low lines between them, or nothing at all. -/
def digitRun? (cs : List Char) : Option (List Char) := if cs.isEmpty then some [] else ungroup? cs

/-- An exponent, which is zero if none is written. -/
def exponent? : Option (List Char) → Option Int
  | none => some 0
  | some cs =>
    let (negative, cs) := takeSign cs
    (ungroup? cs).map fun digits => signed negative (digitsValue digits)

/-- The number that a text writes. There must be a digit before the point or after it. -/
def read? (cs : List Char) : Option Decimal := do
  let (negative, cs) := takeSign (numeral cs)
  let (mantissa, exponent) := cutFirst 'e' (cs.map fun c => if c = 'E' then 'e' else c)
  let (front, fraction) := cutFirst '.' mantissa
  let front ← digitRun? front
  let fraction ← digitRun? (fraction.getD [])
  guard (!(front ++ fraction).isEmpty)
  return ⟨negative, digitsValue (front ++ fraction), (← exponent? exponent) - fraction.length⟩

end ChangeLens.Decimal
