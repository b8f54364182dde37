import ChangeLens.Calendar
import ChangeLens.Decimal.Shortest
import ChangeLens.Text.Number
import ChangeLens.Toml.Fault

/-! Dates and times of day in a document. A date is told by the numbers at its places and by a hyphen anywhere
after its first character; what else stands between the numbers does not matter. -/
namespace ChangeLens.Toml

open Text

def numberAt? (cs : List Char) (start width : Nat) : Option Int := readInt? (.ofList ((cs.drop start).take width))

/-- The minutes by which a clock is ahead, from a sign and the numbers of hours and minutes at their places.
Any character but a minus counts as a plus. -/
def offset? (cs : List Char) : Option Int :=
  if cs == ['Z'] then some 0
  else match numberAt? cs 1 2, numberAt? cs 4 2 with
    | some hours, some minutes => some ((if cs.head? == some '-' then -1 else 1) * (60 * hours + minutes))
    | _, _ => none

/-- A number as a count of millionths, where its text counts from the point on, signs and blanks included. Up
to six characters are counted exactly, more of them in binary floating point, where the number may be too
great. What is left of a millionth is dropped. -/
def millionths (n : Int) (width : Nat) : Except Fault Int :=
  if width ≤ 6 then .ok (n * (Nat.pow 10 (6 - width) : Nat))
  else
    let whole : Decimal := ⟨false, n.natAbs, 0⟩
    let unit : Decimal := ⟨false, 1, 6 - width⟩
    match whole.nearest?, unit.nearest? with
    | some a, some b => .ok (signed (n < 0) (((a.times? b).map Binary.floor).getD 0))
    | _, _ => .error .tooGreat

/-- What may follow the seconds of a moment: a point and a fraction, and an offset. If a part of it cannot be
read there is neither. -/
def afterSeconds (cs : List Char) : Except Fault (Int × Option Int) :=
  match cs with
  | '.' :: cs =>
    let (fraction, zone) :=
      if cs.getLast?.any (·.toLower == 'z') then (cs.dropLast, some ['Z'])
      else match cutFirst '+' cs, cutFirst '-' cs with
        | (fraction, some zone), _ => (fraction, some ('+' :: zone))
        | _, (fraction, some zone) => (fraction, some ('-' :: zone))
        | (fraction, none), _ => (fraction, none)
    let offset := zone.map offset?
    match offset, readInt? (.ofList fraction) with
    | some none, _ | _, none => .ok (0, none)
    | _, some n => (millionths n fraction.length).map (·, offset.join)
  | cs => .ok (0, if cs.isEmpty then none else offset? cs)

/-- The date that a text writes. It has a time of day unless it is ten characters long. -/
def moment? (cs : List Char) : Except Fault (Option Moment) := do
  let (millionth, offset) ← afterSeconds (cs.drop 19)
  if !(cs.drop 1).contains '-' then return none
  let date := do Date.ofNumbers? (← numberAt? cs 0 4) (← numberAt? cs 5 2) (← numberAt? cs 8 2)
  if cs.length = 10 then return date.map .date
  let time := do
    TimeOfDay.ofNumbers? (← numberAt? cs 11 2) (← numberAt? cs 14 2) (← numberAt? cs 17 2) millionth
  return do return .dateTime (← date) (← time) offset

/-- Whether a text begins like a time of day, with three times two digits between colons. -/
def beginsAsTime (cs : List Char) : Bool :=
  match cs with
  | a :: b :: ':' :: c :: d :: ':' :: e :: f :: _ => [a, b, c, d, e, f].all isAsciiDigit
  | _ => false

/-- The time of day with which a text begins. From three to six digits after a point are a count of millionths,
however many they are; any other text may follow. -/
def timeOfDay? (cs : List Char) : Option TimeOfDay := do
  let digits := match cs.drop 8 with
    | '.' :: cs => (cs.takeWhile isAsciiDigit).take 6
    | _ => []
  TimeOfDay.ofNumbers? (← numberAt? cs 0 2) (← numberAt? cs 3 2) (← numberAt? cs 6 2)
    (if digits.length < 3 then 0 else digitsValue digits)

end ChangeLens.Toml
