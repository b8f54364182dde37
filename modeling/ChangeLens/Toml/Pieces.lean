import ChangeLens.Text.Split

/-! Cutting a line outside of its quotes. A line is cut at every quote, and every second piece counts as
quoted; where double quotes stand alone, only the text before the first one is searched for single quotes. -/
namespace ChangeLens.Toml

open Text

/-- Cuts on from pieces at single quotes. If they end in quotes, the double quote behind them belongs to the
text, so the next piece is joined to them with it. What is left at double quotes is given back. -/
def joinQuoted : List (List Char) → List (List Char) → List (List Char) × List (List Char)
  | done, [] => (done, [])
  | done, d :: ds =>
    if done.length % 2 = 0 then
      joinQuoted (done.dropLast ++ (done.getLastD [] ++ '"' :: d).splitOn '\'') ds
    else (done, d :: ds)

def quotePieces (line : List Char) : List (List Char) :=
  let parts := line.splitOn '"'
  let head := parts.headD []
  let (done, left) := if head.contains '\'' && parts.length ≠ 1 then joinQuoted (head.splitOn '\'') parts.tail else ([], parts)
  done ++ (match left with
    | [] => []
    | p :: ps => p.splitOn '\'' ++ ps)

/-- Which of the occurrences of `sep` in some pieces is the first that stands in no quotes, counted from one.
If there is none it is one more than there are. -/
def firstPlain (sep : List Char) : (quoted : Bool) → List (List Char) → Nat
  | _, [] => 1
  | quoted, p :: ps =>
    let count := (pieces sep p).length - 1
    if !quoted && count ≠ 0 then 1 else count + firstPlain sep (!quoted) ps

def cutPlace (sep line : List Char) : Nat := firstPlain sep false (quotePieces line)

def cutAt? (sep line : List Char) (n : Nat) : Option (List Char × List Char) :=
  let parts := pieces sep line
  if n < parts.length then some (sep.intercalate (parts.take n), sep.intercalate (parts.drop n)) else none

def middle (xs : List α) : List α := (xs.drop 1).dropLast

end ChangeLens.Toml
