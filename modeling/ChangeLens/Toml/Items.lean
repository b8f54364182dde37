import ChangeLens.Text.Blank
import ChangeLens.Toml.Outline
import ChangeLens.Toml.Pieces

/-! The items of an array as texts. Arrays of arrays are cut by their brackets, arrays of tables by their
braces, and all others at commas, where pieces of a string are joined again. -/
namespace ChangeLens.Toml

open Text

def holdsStrings (array : List Char) : Bool := (trimChars (middle array)).head?.any isQuote

def isBounded (cs : List Char) : Bool :=
  cs.isEmpty || (cs.head? == cs.getLast? && !endsEscaped (middle cs))

/-- Whether three equal characters begin a text that does not end with two of them before its last. -/
def opensLong (cs : List Char) : Bool :=
  match cs, cs.reverse with
  | a :: b :: c :: _, _ :: y :: z :: _ => a == b && b == c && y != a && z != a
  | _, _ => false

def isWholeString (item : List Char) : Bool :=
  let cs := trimChars item
  isBounded cs && !opensLong cs

/-- Joins the pieces of strings that hold commas. The last piece is taken as it is, unless it was joined to
the one before; there must be a piece to join then. -/
def joinStrings : (joined : Bool) → List Char → List (List Char) → Except Fault (List (List Char))
  | joined, item, [] => if joined && !isWholeString item then .error .pastEnd else .ok [item]
  | _, item, next :: rest =>
    if isWholeString item then (joinStrings false next rest).map (item :: ·)
    else joinStrings true (item ++ ',' :: next) rest

def nestedItems : (depth : Int) → List Char → List (List Char)
  | _, [] => [[]]
  | depth, c :: cs =>
    if c == ',' && depth = 0 then [] :: nestedItems depth cs
    else addFront c (nestedItems (if c == '[' then depth + 1 else if c == ']' then depth - 1 else depth) cs)

structure TableSearch where
  /-- The characters passed, last first. -/
  before : List Char := []
  /-- The table in hand, last character first. -/
  table : Option (List Char)
  /-- Whether the next character is passed without being looked at, as one behind a table is. -/
  skip : Bool := false
  quoted : Bool := false
  /-- How many braces are open, the first of a later table left out. -/
  depth : Nat

namespace TableSearch

def passQuote (s : TableSearch) (c : Char) : Bool :=
  if !isQuote c then s.quoted
  else if s.quoted then (s.before.takeWhile (· == '\\')).length % 2 == 1
  else true

/-- Finds the tables in the rest of an array. One that is not closed is none. -/
def run (s : TableSearch) : List Char → List (List Char)
  | [] => []
  | c :: cs =>
    let s' := { s with before := c :: s.before, skip := false }
    match s.table with
    | none => run { s' with table := if !s.skip && c == '{' then some [c] else none } cs
    | some text =>
      let quoted := s.passQuote c
      let depth := if !quoted && c == '{' then s.depth + 1 else s.depth
      let s' := { s' with table := some (c :: text), quoted := quoted, depth := depth }
      if quoted || c != '}' then run s' cs
      else if 1 < depth then run { s' with depth := depth - 1 } cs
      else (c :: text).reverse :: run { s' with table := none, skip := true } cs

end TableSearch

def tableItems : List Char → List (List Char)
  | [] => []
  | c :: cs => TableSearch.run { before := [c], table := some [c], depth := if c == '{' then 1 else 0 } cs

/-- The items of an array, blanks around them included. -/
def arrayItems (array : List Char) : Except Fault (List (List Char)) :=
  let body := middle array
  if body.contains '[' && allBlank (.ofList (body.takeWhile (· != '['))) then .ok (nestedItems 0 body)
  else if (trimChars body).head? == some '{' then .ok (tableItems body)
  else match body.splitOn ',' with
    | item :: rest => if holdsStrings array then joinStrings false item rest else .ok (item :: rest)
    | [] => .ok []

end ChangeLens.Toml
