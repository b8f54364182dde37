import ChangeLens.Text.Number

/-! Why a document has no reading, or a table cannot be written as a document. -/
namespace ChangeLens.Toml

inductive Fault where
  /-- A rule of the format is broken. -/
  | malformed
  /-- Names or entries are looked for in a value that holds none. -/
  | notATable
  /-- A character or an item is looked for beyond the last one. -/
  | pastEnd
  /-- A number is far too great for a character, or for a part of a second. -/
  | tooGreat
  /-- A string over several lines stands under an empty key. -/
  | unnamed
  /-- Too many values stand inside each other. -/
  | tooDeep
  /-- A number to be written has more digits than are read. -/
  | tooLong
  /-- The clock of a moment to be written is a day ahead or behind, or more. -/
  | farOffset
  deriving DecidableEq

/-- How a fault in what was to be written is told to whoever wanted it written. Other faults are told to
nobody. -/
def Fault.report? : Fault → Option String
  | tooLong => some (Text.overLimit "")
  | farOffset => some
      "offset must be a timedelta strictly between -timedelta(hours=24) and timedelta(hours=24)."
  | _ => none

end ChangeLens.Toml
