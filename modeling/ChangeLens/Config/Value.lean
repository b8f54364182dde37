import ChangeLens.Calendar
import ChangeLens.Decimal.Shortest
import ChangeLens.Text.Quoted
import ChangeLens.Text.Split

/-! Values that a configuration may hold under a key, and how a message shows one that was refused. -/
namespace ChangeLens.Config

inductive Value where
  | nothing
  | truth (value : Bool)
  | whole (value : Int)
  | decimal (value : Decimal)
  /-- The decimal that is no number. -/
  | notANumber
  | moment (value : Moment)
  | text (value : String)
  /-- A text in which halves of surrogate pairs stand, so that it is no row of characters. -/
  | unpaired (points : List Text.CodePoint)
  | list (items : List Value)
  | table (entries : List (String × Value))
  deriving Inhabited

abbrev Table := List (String × Value)

namespace Value

def ofPoints (ps : List Text.CodePoint) : Value := ((Text.CodePoint.text? ps).map text).getD (unpaired ps)

mutual

def shown : Value → String
  | nothing => "None"
  | truth true => "True"
  | truth false => "False"
  | whole value => toString value
  | decimal value => value.text
  | notANumber => "nan"
  | moment value => value.text
  | text value => Text.quoted value
  | unpaired points => Text.quotedPoints points
  | list items => "[" ++ Text.joinWith ", " (shownItems items) ++ "]"
  | table entries => "\x7b" ++ Text.joinWith ", " (shownEntries entries) ++ "\x7d"

def shownItems : List Value → List String
  | [] => []
  | v :: vs => shown v :: shownItems vs

def shownEntries : List (String × Value) → List String
  | [] => []
  | (k, v) :: rest => (Text.quoted k ++ ": " ++ shown v) :: shownEntries rest

end

mutual

/-- How many lists and tables stand inside each other. -/
def depth : Value → Nat
  | list items => depthItems items + 1
  | table entries => depthEntries entries + 1
  | _ => 1

def depthItems : List Value → Nat
  | [] => 0
  | v :: vs => max v.depth (depthItems vs)

def depthEntries : List (String × Value) → Nat
  | [] => 0
  | (_, v) :: rest => max v.depth (depthEntries rest)

end

end Value
end ChangeLens.Config
