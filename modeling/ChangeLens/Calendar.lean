import ChangeLens.Text.Split

/-! Days of the calendar, times of day, and their texts; and timestamps, which are in universal time and to the second. -/
namespace ChangeLens

def padded (width n : Nat) : String :=
  let digits := Nat.toDigits 10 n
  .ofList (List.replicate (width - digits.length) '0' ++ digits)

structure Date where
  year : Nat
  month : Nat
  day : Nat
  deriving DecidableEq

namespace Date

def isLeapYear (year : Nat) : Bool := year % 4 = 0 && (year % 100 ≠ 0 || year % 400 = 0)

def daysIn (year month : Nat) : Nat :=
  if month = 2 then (if isLeapYear year then 29 else 28)
  else if month = 4 ∨ month = 6 ∨ month = 9 ∨ month = 11 then 30
  else 31

/-- Whether the calendar has the day. Years have four digits, and the first one is 1. -/
def isValid (d : Date) : Bool :=
  1 ≤ d.year && d.year ≤ 9999 && 1 ≤ d.month && d.month ≤ 12 && 1 ≤ d.day && d.day ≤ daysIn d.year d.month

def ofNumbers? (year month day : Int) : Option Date :=
  let d : Date := ⟨year.toNat, month.toNat, day.toNat⟩
  if d.isValid then some d else none

def text (d : Date) : String := Text.joinWith "-" [padded 4 d.year, padded 2 d.month, padded 2 d.day]

end Date

structure TimeOfDay where
  hour : Nat
  minute : Nat
  second : Nat
  /-- Millionths of a second. -/
  millionth : Nat := 0
  deriving DecidableEq

namespace TimeOfDay

/-- The time of day that four numbers name, if there is one. No minute has a second more. -/
def ofNumbers? (hour minute second millionth : Int) : Option TimeOfDay :=
  if 0 ≤ hour ∧ hour < 24 ∧ 0 ≤ minute ∧ minute < 60 ∧ 0 ≤ second ∧ second < 60 ∧
      0 ≤ millionth ∧ millionth < 1000000 then
    some ⟨hour.toNat, minute.toNat, second.toNat, millionth.toNat⟩
  else none

def text (t : TimeOfDay) : String :=
  Text.joinWith ":" [padded 2 t.hour, padded 2 t.minute, padded 2 t.second] ++
    (if t.millionth = 0 then "" else "." ++ padded 6 t.millionth)

end TimeOfDay

inductive Moment where
  | date (date : Date)
  | timeOfDay (time : TimeOfDay)
  /-- A time on a day, perhaps with the minutes by which its clock is ahead of universal time. -/
  | dateTime (date : Date) (time : TimeOfDay) (offset : Option Int)
  deriving DecidableEq

namespace Moment

def offsetText (minutes : Int) : String :=
  if minutes = 0 then "Z"
  else (if minutes < 0 then "-" else "+") ++ padded 2 (minutes.natAbs / 60) ++ ":" ++ padded 2 (minutes.natAbs % 60)

def text : Moment → String
  | date d => d.text
  | timeOfDay t => t.text
  | dateTime d t offset => d.text ++ "T" ++ t.text ++ (offset.map offsetText).getD ""

/-- Whether the clock of a moment is less than a day ahead or behind. -/
def isNear : Moment → Bool
  | dateTime _ _ (some minutes) => minutes.natAbs < 24 * 60
  | _ => true

end Moment

namespace Timestamp

/-- The date so many days after the first of January 1970. Years are taken to begin in March, so that the
odd day of a leap year is their last one; 400 of them have 146097 days. -/
def dateOfDays (days : Nat) : Date :=
  let shifted := days + 719468
  let era := shifted / 146097
  let ofEra := shifted % 146097
  let year := (ofEra - ofEra / 1460 + ofEra / 36524 - ofEra / 146096) / 365
  let ofYear := ofEra - (365 * year + year / 4 - year / 100)
  let month := (5 * ofYear + 2) / 153
  let day := ofYear - (153 * month + 2) / 5 + 1
  if month < 10 then ⟨year + 400 * era, month + 3, day⟩ else ⟨year + 400 * era + 1, month - 9, day⟩

def text (seconds : Nat) : String :=
  let ofDay := seconds % 86400
  (dateOfDays (seconds / 86400)).text ++ "T" ++
    (⟨ofDay / 3600, ofDay / 60 % 60, ofDay % 60, 0⟩ : TimeOfDay).text ++ "+00:00"

end Timestamp
end ChangeLens
